import Columnar.Proofs.ColumnType.Coarsened
import Columnar.Proofs.Schema.Shape

/-!
# One type for whole documents against a schema

Where all documents are maps, the one type of whole documents is a struct, and its fields can be set
against the columns of the schema of the same documents. A column unifies the types of its values and
a field combines them, so the fields are the columns, in the same order, and each has room for its
column. Main statement: `document_fields_have_room_for_columns`.
-/

namespace Columnar.Schema

open ColumnType (Coarsened combineAll ofTree settle unify unifyAll)

/-! ## Maps as structs -/

/-- The fields of the type of a map. -/
def fieldsOf (d : Tree) : List (String × ColumnType) := d.entries.map fun e => (e.1, ofTree e.2)

theorem names_fieldsOf (d : Tree) : Record.names (fieldsOf d) = Record.names d.entries :=
  Record.names_map (fun _ => ofTree) d.entries

theorem get?_fieldsOf (name : String) (d : Tree) :
    Record.get? name (fieldsOf d) = (d.get? name).map ofTree :=
  Record.get?_map (fun _ => ofTree) name d.entries

theorem distinct_fieldsOf {d : Tree} (h : Record.Distinct d.entries) :
    Record.Distinct (fieldsOf d) := by
  rw [Record.Distinct, names_fieldsOf]
  exact h

theorem ofTree_eq_struct {d : Tree} (hmap : d.isMap = true) (hkeys : Record.Distinct d.entries) :
    ofTree d = .struct (fieldsOf d) := by
  cases d with
  | map entries =>
    rw [ofTree, ColumnType.ofEntries_eq, ColumnType.structOf]
    exact congrArg _ (Record.ofEntries_eq_self (distinct_fieldsOf hkeys))
  | null | scalar | sequence => cases hmap

/-- A record stores at most one value under a key. -/
theorem valuesUnder_of_distinct {entries : List (String × Tree)} (h : Record.Distinct entries)
    (key : String) : valuesUnder key entries = (Record.get? key entries).toList := by
  induction entries with
  | nil => rfl
  | cons e rest ih =>
    obtain ⟨hnew, hrest⟩ := h.tail
    by_cases hkey : e.1 = key
    · have hnone : valuesUnder key rest = [] := valuesUnder_eq_nil_iff.mpr (hkey ▸ hnew)
      rw [valuesUnder] at hnone ⊢
      simp [hkey, hnone, Record.get?]
    · rw [valuesUnder] at ih ⊢
      simp [hkey, ih hrest, Record.get?]

theorem valuesUnder_entriesOf {documents : List Tree}
    (h : ∀ d ∈ documents, Record.Distinct d.entries) (key : String) :
    valuesUnder key (entriesOf documents) = documents.filterMap (Tree.get? key) := by
  induction documents with
  | nil => rfl
  | cons d rest ih =>
    rw [List.forall_mem_cons] at h
    have hrest := ih h.2
    have hd := valuesUnder_of_distinct h.1 key
    rw [valuesUnder] at hrest hd ⊢
    rw [entriesOf, List.flatMap_cons, List.filterMap_append, hd, ← entriesOf, hrest,
      List.filterMap_cons, Tree.get?]
    cases Record.get? key d.entries <;> rfl

/-! ## The struct of all documents -/

theorem typeWith_eq_ofTree {config : Config} (h : config.detectTypes = true) :
    typeWith config = ofTree := by
  funext node
  rw [typeWith, if_pos h]

/-- Maps with distinct keys have together the struct of all keys in first-seen order, each with the
types of its values combined. -/
theorem unifyAll_maps {documents : List Tree}
    (hmaps : ∀ d ∈ documents, d.isMap = true ∧ Record.Distinct d.entries)
    (hsome : documents ≠ []) :
    ∃ fields, unifyAll (documents.map ofTree) = some (.struct fields) ∧
      Record.Distinct fields ∧
      Record.names fields = (Record.names (entriesOf documents)).eraseDups ∧
      ∀ name, Record.get? name fields =
        combineAll ((documents.filterMap (Tree.get? name)).map ofTree) := by
  have htypes : documents.map ofTree = (documents.map fieldsOf).map .struct := by
    rw [List.map_map]
    exact List.map_congr_left fun d hd => ofTree_eq_struct (hmaps d hd).1 (hmaps d hd).2
  have hdistinct : ∀ fs ∈ documents.map fieldsOf, Record.Distinct fs :=
    List.forall_mem_map.mpr fun d hd => distinct_fieldsOf (hmaps d hd).2
  have hnames : (documents.map fieldsOf).flatMap Record.names =
      Record.names (entriesOf documents) := by
    rw [List.flatMap_map, entriesOf, Record.names, List.map_flatMap]
    exact congrArg (List.flatMap · documents) (funext names_fieldsOf)
  have hvalues (name : String) : (documents.map fieldsOf).filterMap (Record.get? name) =
      (documents.filterMap (Tree.get? name)).map ofTree := by
    rw [List.filterMap_map, List.map_filterMap]
    exact congrArg (List.filterMap · documents) (funext (get?_fieldsOf name))
  have hfieldsSome : documents.map fieldsOf ≠ [] := by
    rw [Ne, List.map_eq_nil_iff]
    exact hsome
  obtain ⟨fields, hunified, hfields, hfirst, hget⟩ :=
    ColumnType.unifyAll_structs hfieldsSome hdistinct
  refine ⟨fields, ?_, hfields, ?_, ?_⟩
  · rw [htypes, hunified]
  · rw [hfirst, hnames]
  · intro name
    rw [hget, hvalues]

/-- The one type of maps with distinct keys, once it is settled. -/
theorem documentType_maps {config : Config} {documents : List Tree}
    (hdetect : config.detectTypes = true)
    (hmaps : ∀ d ∈ sample config [documents], d.isMap = true ∧ Record.Distinct d.entries)
    (hsome : sample config [documents] ≠ []) :
    ∃ fields, (documentType config documents).result = .struct fields ∧
      Record.names fields = (Record.names (entriesOf (sample config [documents]))).eraseDups ∧
      ∀ name, Record.get? name fields =
        (combineAll (((sample config [documents]).filterMap (Tree.get? name)).map ofTree)).map
          settle := by
  have hwhole : (documentType config documents).result = documentTypeFrom config documents := rfl
  obtain ⟨fields, hunified, hdistinct, hnames, hget⟩ := unifyAll_maps hmaps hsome
  have hsettled : Record.names (ColumnType.settleFields fields) = Record.names fields := by
    rw [ColumnType.settleFields_eq]
    exact Record.names_map (fun _ => settle) fields
  have hself : Record.ofEntries (ColumnType.settleFields fields) =
      ColumnType.settleFields fields := by
    apply Record.ofEntries_eq_self
    rw [Record.Distinct, hsettled]
    exact hdistinct
  refine ⟨ColumnType.settleFields fields, ?_, hsettled.trans hnames, ?_⟩
  · rw [hwhole, documentTypeFrom_eq, typeWith_eq_ofTree hdetect, hunified, Option.elim_some, settle,
      ColumnType.structOf, hself]
  · intro name
    rw [ColumnType.settleFields_eq, Record.get?_map (fun _ => settle), hget]

/-- **The fields of whole documents have room for the columns of the rows.** If all documents that
are looked at are maps with distinct keys, and one of them has an entry, then under detection and
without declared types their one type is a struct with the columns of their schema as its fields, in
the same order, and unifying a column into the field of its name leaves the field as it is. -/
theorem document_fields_have_room_for_columns (config : Config) (documents : List Tree)
    (hdetect : config.detectTypes = true) (hdeclared : config.declared = [])
    (hmaps : ∀ d ∈ sample config [documents], d.isMap = true ∧ Record.Distinct d.entries)
    (hentry : ∃ d ∈ sample config [documents], d.entries ≠ []) :
    ∃ fields, (documentType config documents).result = .struct fields ∧
      Record.names fields = (infer config [documents]).result.names ∧
      ∀ name ∈ (infer config [documents]).result.names, ∃ column field,
        (infer config [documents]).result.get? name = some column ∧
        Record.get? name fields = some field ∧ (unify column field).agrees field = true := by
  have hcolumns := not_isEmpty_of_entry config hentry
  obtain ⟨d, hd, -⟩ := hentry
  obtain ⟨fields, hstruct, hnames, hget⟩ :=
    documentType_maps hdetect hmaps (List.ne_nil_of_mem hd)
  rw [result_infer, names_schema config hcolumns, names_seenIn]
  refine ⟨fields, hstruct, hnames, ?_⟩
  intro name hname
  -- The column and the field of a name come from the same values, by the two rule sets.
  have hundeclared : Record.get? name config.declared = none := by
    rw [hdeclared]
    rfl
  have hvalues : ∀ t ∈ ((sample config [documents]).filterMap (Tree.get? name)).map ofTree,
      t.Distinct := List.forall_mem_map.mpr fun d _ => ColumnType.ofTree_distinct d
  have hroom := ColumnType.settled_field_has_room hvalues
  rw [← hget] at hroom
  rw [get?_schema_undeclared hcolumns hundeclared, typeWith_eq_ofTree hdetect,
    valuesUnder_entriesOf fun d hd => (hmaps d hd).2]
  rw [← hnames, ← Record.isSome_get?] at hname
  generalize Option.map settle (unifyAll _) = column at hroom ⊢
  generalize Record.get? name fields = field at hroom hname ⊢
  cases hroom with
  | none => cases hname
  | some h => exact ⟨_, _, rfl, rfl, h⟩

/-- Three maps, one of them without an entry: the numbers of a column and the items of a column of
lists widen, and in the fields of whole documents both become strings. -/
theorem document_fields_have_room_for_widened_columns :
    let documents : List Tree :=
      [.map [("a", .scalar "1"), ("b", .sequence [.scalar "1"])], .map [],
        .map [("c", .null), ("b", .sequence [.scalar "2.5"]), ("a", .scalar "300")]]
    (∀ d ∈ sample {} [documents], d.isMap = true ∧ Record.Distinct d.entries) ∧
      (∃ d ∈ sample {} [documents], d.entries ≠ []) ∧
      ∃ fields, (documentType {} documents).result = .struct fields ∧
        Record.names fields = (infer {} [documents]).result.names ∧
        ∀ name ∈ (infer {} [documents]).result.names, ∃ column field,
          (infer {} [documents]).result.get? name = some column ∧
          Record.get? name fields = some field ∧ (unify column field).agrees field = true := by
  intro documents
  have hmaps : ∀ d ∈ sample {} [documents], d.isMap = true ∧ Record.Distinct d.entries := by
    decide
  have hentry : ∃ d ∈ sample {} [documents], d.entries ≠ [] :=
    ⟨_, List.mem_cons_self, List.cons_ne_nil _ _⟩
  exact ⟨hmaps, hentry, document_fields_have_room_for_columns {} documents rfl rfl hmaps hentry⟩

end Columnar.Schema
