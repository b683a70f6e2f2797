import Columnar.Proofs.ColumnType.OfTree
import Columnar.Schema.Infer

/-!
# What a column is inferred from

The row loop keeps all columns at once. Here each column is read off the documents on its own: its
type is the fold of the types of the values stored under its key, in order, unless the column is
declared. Whole documents that are no maps are folded beside the columns. What was seen makes the
schema: its columns, settled unless they are declared, or the one of whole documents if there are
none. Nothing here depends on the caps, which only choose the documents.
-/

namespace Columnar.Schema

open ColumnType (unify unifyAll settle)

/-- The values stored under a key, in order. -/
def valuesUnder (key : String) (entries : List (String × Tree)) : List Tree :=
  entries.filterMap fun e => if e.1 = key then some e.2 else none

/-- The entries of all maps among the documents, in order. -/
def entriesOf (documents : List Tree) : List (String × Tree) := documents.flatMap Tree.entries

/-- The documents that are no maps, in order. -/
def nonMaps (documents : List Tree) : List Tree := documents.filter fun d => !d.isMap

theorem valuesUnder_eq_nil_iff {key : String} {entries : List (String × Tree)} :
    valuesUnder key entries = [] ↔ key ∉ Record.names entries := by
  rw [valuesUnder, List.filterMap_eq_nil_iff, Record.names, List.mem_map]
  constructor
  · rintro hnone ⟨e, he, rfl⟩
    simpa using hnone e he
  · intro hnone e he
    exact if_neg fun heq => hnone ⟨e, he, heq⟩

/-- Only maps have entries. -/
theorem entries_of_not_isMap {d : Tree} (h : d.isMap = false) : d.entries = [] := by
  cases d with
  | map => cases h
  | null | scalar | sequence => rfl

theorem typeWith_distinct (config : Config) (node : Tree) :
    (typeWith config node).Distinct := by
  unfold typeWith
  split
  · exact ColumnType.ofTree_distinct node
  · exact .of_plain rfl

/-! ## Folds that may start with nothing -/

theorem foldl_unifyOnto_some (t : ColumnType) (ts : List ColumnType) :
    ts.foldl (fun sofar s => some (unifyOnto sofar s)) (some t) = some (ts.foldl unify t) := by
  induction ts generalizing t with
  | nil => rfl
  | cons s rest ih => exact ih (unify t s)

theorem foldl_unifyOnto_none (ts : List ColumnType) :
    ts.foldl (fun sofar s => some (unifyOnto sofar s)) none = unifyAll ts := by
  cases ts with
  | nil => rfl
  | cons t rest => exact foldl_unifyOnto_some t rest

/-! ## One column -/

variable (config : Config)

theorem addValue_declared {key : String} {t : ColumnType}
    (h : Record.get? key config.declared = some t) (types : Record ColumnType) (value : Tree) :
    Columns.addValue config types (key, value) = Record.put key t types := by
  simp only [Columns.addValue, h]

theorem addValue_undeclared {key : String} (h : Record.get? key config.declared = none)
    (types : Record ColumnType) (value : Tree) :
    Columns.addValue config types (key, value) =
      Record.put key (unifyOnto (Record.get? key types) (typeWith config value)) types := by
  simp only [Columns.addValue, h]

/-- Each value is written under its key, whatever its type. -/
theorem addValue_eq_put (types : Record ColumnType) (entry : String × Tree) :
    ∃ t, Columns.addValue config types entry = Record.put entry.1 t types := by
  cases h : Record.get? entry.1 config.declared with
  | none => exact ⟨_, addValue_undeclared config h types entry.2⟩
  | some t => exact ⟨t, addValue_declared config h types entry.2⟩

theorem get?_addValue_of_ne {types : Record ColumnType} {entry : String × Tree} {key : String}
    (h : entry.1 ≠ key) :
    Record.get? key (Columns.addValue config types entry) = Record.get? key types := by
  obtain ⟨t, ht⟩ := addValue_eq_put config types entry
  rw [ht, Record.get?_put_of_ne (Ne.symm h)]

/-- The values under other keys do not reach an undeclared column. -/
theorem get?_foldl_addValue {key : String} (h : Record.get? key config.declared = none)
    (entries : List (String × Tree)) (types : Record ColumnType) :
    Record.get? key (entries.foldl (Columns.addValue config) types) =
      ((valuesUnder key entries).map (typeWith config)).foldl
        (fun sofar t => some (unifyOnto sofar t)) (Record.get? key types) := by
  induction entries generalizing types with
  | nil => rfl
  | cons e rest ih =>
    obtain ⟨k, value⟩ := e
    rw [List.foldl_cons, ih]
    by_cases he : k = key
    · subst he
      rw [addValue_undeclared config h, Record.get?_put_self]
      simp [valuesUnder]
    · rw [get?_addValue_of_ne config he]
      simp [valuesUnder, he]

/-- A declared column has its type from its first value on. -/
theorem get?_foldl_addValue_declared {key : String} {t : ColumnType}
    (h : Record.get? key config.declared = some t) (entries : List (String × Tree))
    (types : Record ColumnType) :
    Record.get? key (entries.foldl (Columns.addValue config) types) =
      if key ∈ Record.names entries then some t else Record.get? key types := by
  induction entries generalizing types with
  | nil => simp [Record.names]
  | cons e rest ih =>
    obtain ⟨k, value⟩ := e
    have hmem : key ∈ Record.names ((k, value) :: rest) ↔ key = k ∨ key ∈ Record.names rest :=
      List.mem_cons
    rw [List.foldl_cons, ih]
    by_cases he : k = key
    · subst he
      rw [addValue_declared config h, Record.get?_put_self, if_pos (hmem.mpr (Or.inl rfl)),
        ite_self]
    · rw [get?_addValue_of_ne config he]
      simp only [hmem, or_iff_right (Ne.symm he)]

theorem mem_names_foldl_addValue {key : String} (entries : List (String × Tree))
    (types : Record ColumnType) :
    key ∈ Record.names (entries.foldl (Columns.addValue config) types) ↔
      key ∈ Record.names types ∨ key ∈ Record.names entries := by
  induction entries generalizing types with
  | nil => simp [Record.names]
  | cons e rest ih =>
    obtain ⟨t, ht⟩ := addValue_eq_put config types e
    have hput : key ∈ Record.names (Record.put e.1 t types) ↔
        key ∈ Record.names types ∨ key = e.1 := by
      rw [Record.names_put]
      split
      · exact (or_iff_left_of_imp fun h => h ▸ ‹_›).symm
      · rw [List.mem_append, List.mem_singleton]
    rw [List.foldl_cons, ih, ht, hput, or_assoc]
    simp [Record.names]

theorem distinct_foldl_addValue (entries : List (String × Tree)) {types : Record ColumnType}
    (h : Record.Distinct types) :
    Record.Distinct (entries.foldl (Columns.addValue config) types) := by
  induction entries generalizing types with
  | nil => exact h
  | cons e rest ih =>
    obtain ⟨t, ht⟩ := addValue_eq_put config types e
    rw [List.foldl_cons, ht]
    exact ih (h.put e.1 t)

/-! ## All columns -/

/-- The row loop splits into a loop over all entries and a fold over the documents that are no
maps. -/
theorem foldl_add (documents : List Tree) (seen : Columns) :
    documents.foldl (Columns.add config) seen =
      ⟨(entriesOf documents).foldl (Columns.addValue config) seen.types,
        ((nonMaps documents).map (typeWith config)).foldl
          (fun sofar t => some (unifyOnto sofar t)) seen.fallback⟩ := by
  induction documents generalizing seen with
  | nil => rfl
  | cons d rest ih =>
    have hentries : entriesOf (d :: rest) = d.entries ++ entriesOf rest := List.flatMap_cons
    rw [List.foldl_cons, ih, hentries, List.foldl_append]
    cases d <;> rfl

/-- What the row loop has seen at its end. -/
def seenIn (documents : List Tree) : Columns :=
  documents.foldl (Columns.add config) ⟨[], none⟩

theorem seenIn_types (documents : List Tree) :
    (seenIn config documents).types =
      (entriesOf documents).foldl (Columns.addValue config) [] := by
  rw [seenIn, foldl_add]

theorem seenIn_fallback (documents : List Tree) :
    (seenIn config documents).fallback =
      unifyAll ((nonMaps documents).map (typeWith config)) := by
  rw [seenIn, foldl_add, foldl_unifyOnto_none]

theorem get?_seenIn {key : String} (h : Record.get? key config.declared = none)
    (documents : List Tree) :
    Record.get? key (seenIn config documents).types =
      unifyAll ((valuesUnder key (entriesOf documents)).map (typeWith config)) := by
  rw [seenIn_types, get?_foldl_addValue config h]
  exact foldl_unifyOnto_none _

theorem mem_names_seenIn {key : String} (documents : List Tree) :
    key ∈ Record.names (seenIn config documents).types ↔
      key ∈ Record.names (entriesOf documents) := by
  rw [seenIn_types, mem_names_foldl_addValue]
  exact or_iff_right (by simp [Record.names])

theorem distinct_seenIn (documents : List Tree) :
    Record.Distinct (seenIn config documents).types := by
  rw [seenIn_types]
  exact distinct_foldl_addValue config _ List.nodup_nil

/-- There are no columns exactly if no document has an entry. -/
theorem isEmpty_types_seenIn (documents : List Tree) :
    (seenIn config documents).types.isEmpty = true ↔ ∀ d ∈ documents, d.entries = [] := by
  have hnames : (seenIn config documents).types.isEmpty = true ↔
      ∀ name, name ∉ Record.names (entriesOf documents) :=
    Record.isEmpty_iff.trans
      (forall_congr' fun name => not_congr (mem_names_seenIn config documents))
  rw [hnames, ← Record.isEmpty_iff, List.isEmpty_iff]
  exact List.flatMap_eq_nil_iff

/-- Documents that are no maps have no columns. -/
theorem seenIn_types_of_no_map {documents : List Tree} (h : ∀ d ∈ documents, d.isMap = false) :
    (seenIn config documents).types = [] := by
  have hempty : ∀ d ∈ documents, d.entries = [] := fun d hd => entries_of_not_isMap (h d hd)
  exact List.isEmpty_iff.mp ((isEmpty_types_seenIn config documents).mpr hempty)

theorem inferFrom_eq (batches : List (List Tree)) :
    inferFrom config batches = (seenIn config (sample config batches)).schema config := rfl

theorem result_infer (batches : List (List Tree)) :
    (infer config batches).result = (seenIn config (sample config batches)).schema config := rfl

theorem documentTypeFrom_eq (documents : List Tree) :
    documentTypeFrom config documents =
      (unifyAll ((sample config [documents]).map (typeWith config))).elim .string settle := by
  rw [documentTypeFrom, ← foldl_unifyOnto_none, List.foldl_map]

/-! ## The schema of what was seen -/

/-- The type of a column once all values were looked at; a declared type is left as it is. -/
def settled (name : String) (t : ColumnType) : ColumnType :=
  if (Record.get? name config.declared).isSome then t else settle t

theorem schema_of_isEmpty {seen : Columns} (h : seen.types.isEmpty = true) :
    seen.schema config = ofValues (seen.fallback.elim .string settle) := by
  rw [Columns.schema, if_pos h]

theorem schema_of_not_isEmpty {seen : Columns} (h : ¬ seen.types.isEmpty = true) :
    seen.schema config = ofFields (seen.types.map fun e => (e.1, settled config e.1 e.2)) := by
  rw [Columns.schema, if_neg h]
  rfl

theorem names_schema {seen : Columns} (h : ¬ seen.types.isEmpty = true) :
    (seen.schema config).names = Record.names seen.types := by
  rw [schema_of_not_isEmpty config h]
  exact Record.names_map (settled config) seen.types

theorem get?_schema {seen : Columns} (h : ¬ seen.types.isEmpty = true) (key : String) :
    (seen.schema config).get? key = (Record.get? key seen.types).map (settled config key) := by
  rw [schema_of_not_isEmpty config h]
  exact Record.get?_map (settled config) key seen.types

section OneColumn

variable {config} {documents : List Tree} {key : String}

theorem get?_schema_declared (h : ¬ (seenIn config documents).types.isEmpty = true)
    {t : ColumnType} (hdeclared : Record.get? key config.declared = some t)
    (hkey : key ∈ Record.names (entriesOf documents)) :
    ((seenIn config documents).schema config).get? key = some t := by
  have hsettled : settled config key t = t := by
    rw [settled, hdeclared, Option.isSome_some, if_pos rfl]
  rw [get?_schema config h, seenIn_types, get?_foldl_addValue_declared config hdeclared,
    if_pos hkey, Option.map_some, hsettled]

theorem get?_schema_undeclared (h : ¬ (seenIn config documents).types.isEmpty = true)
    (hdeclared : Record.get? key config.declared = none) :
    ((seenIn config documents).schema config).get? key =
      (unifyAll ((valuesUnder key (entriesOf documents)).map (typeWith config))).map settle := by
  have hsettled : settled config key = settle := by
    funext t
    rw [settled, hdeclared, Option.isSome_none, if_neg Bool.false_ne_true]
  rw [get?_schema config h, get?_seenIn config hdeclared, hsettled]

end OneColumn

end Columnar.Schema
