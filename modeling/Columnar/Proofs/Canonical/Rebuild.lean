import Columnar.Proofs.Canonical.Scalar
import Columnar.Proofs.Json.Data
import Columnar.Proofs.Tree.WellFormed

/-!
# Documents rebuilt from their canonical form

The canonical form of a document is data that a document can be built from again. Canonical scalars
are written with the type they had, and canonical maps name nothing twice, so building neither
retypes nor collapses anything. Main statement: the document that is built has the canonical form it
was built from, and every scalar in it has the kind of the one in its place.
-/

namespace Columnar

/-- What kinds of value a document has in what places. -/
inductive Outline
  | leaf (kind : ColumnType.Kind)
  | sequence (items : List Outline)
  | map (entries : List (String × Outline))

namespace Tree

mutual

/-- The kinds of the scalars of a document, in the places that its canonical form keeps. -/
def outline : Tree → Outline
  | .null => .leaf .null
  | .scalar text => .leaf (Scalar.classify text).kind
  | .sequence items => .sequence (itemsOutline items)
  | .map entries => .map (Record.ofEntries (entriesOutline entries))

def itemsOutline : List Tree → List Outline
  | [] => []
  | t :: rest => outline t :: itemsOutline rest

def entriesOutline : List (String × Tree) → List (String × Outline)
  | [] => []
  | (key, t) :: rest => (key, outline t) :: entriesOutline rest

end

theorem entriesToJson_eq_map (entries : List (String × Tree)) :
    entriesToJson entries = entries.map fun e => (e.1, e.2.toJson) := by
  induction entries with
  | nil => rfl
  | cons e rest ih => rw [entriesToJson, ih, List.map_cons]

theorem entriesOutline_eq_map (entries : List (String × Tree)) :
    entriesOutline entries = entries.map fun e => (e.1, e.2.outline) := by
  induction entries with
  | nil => rfl
  | cons e rest ih => rw [entriesOutline, ih, List.map_cons]

end Tree

/-! ## Scalars -/

/-- The value builds a document that has the value as its canonical form, with these kinds. -/
def Rebuilds (v : Json) (kinds : Outline) : Prop :=
  ∃ t, v.toDatum.toTree = .ok t ∧ t.toJson = v ∧ t.outline = kinds

/-- A value that is written as a scalar is rebuilt if that scalar has the value as its form. -/
theorem rebuilds_scalar {v : Json} {s : String} {kind : ColumnType.Kind}
    (hbuild : v.toDatum.toTree = .ok (.scalar s)) (hform : Scalar.toJson s = v)
    (hkind : (Scalar.classify s).kind = kind) : Rebuilds v (.leaf kind) := by
  refine ⟨_, hbuild, ?_, ?_⟩
  · rw [Tree.toJson, hform]
  · rw [Tree.outline, hkind]

namespace Scalar

/-- A value that is a text builds the scalar with that text. -/
theorem rebuilds_string {s : String} {kind : ColumnType.Kind} (hform : toJson s = .string s)
    (hkind : (classify s).kind = kind) : Rebuilds (.string s) (.leaf kind) :=
  rebuilds_scalar (by rw [Json.toDatum, Datum.toTree]) hform hkind

theorem rebuilds_boolean (b : Bool) : Rebuilds (.boolean b) (.leaf .boolean) := by
  cases b with
  | false => exact rebuilds_scalar (s := "false") (by rw [Json.toDatum, Datum.toTree]; rfl) rfl rfl
  | true => exact rebuilds_scalar (s := "true") (by rw [Json.toDatum, Datum.toTree]; rfl) rfl rfl

theorem rebuilds_integer {n : Int} (h : Typable n) : Rebuilds (.integer n) (.leaf .integer) := by
  obtain ⟨⟨w, hclassify⟩, hread⟩ := integer_written h
  refine rebuilds_scalar (s := String.ofList (integerText n)) ?_ ?_ ?_
  · rw [Json.toDatum, Datum.toTree]
  · simp only [toJson, hclassify, readAs, hread, Option.elim_some]
  · rw [hclassify]
    rfl

/-- A double in its canonical form, a number or the word for it. -/
theorem rebuilds_double {d : Double} (h : doubleType d = .double) :
    Rebuilds d.toJson (.leaf .double) := by
  cases d with
  | nan => exact rebuilds_string (s := "NaN") rfl rfl
  | infinite negative =>
    cases negative with
    | false => exact rebuilds_string (s := "Infinity") rfl rfl
    | true => exact rebuilds_string (s := "-Infinity") rfl rfl
  | finite negative m =>
    obtain ⟨hclassify, hread⟩ := double_written negative m
    rw [h] at hclassify
    refine rebuilds_scalar (s := String.ofList (Double.text (.finite negative m))) ?_ ?_ ?_
    · rw [Double.toJson, Json.toDatum, Datum.toTree]
    · simp only [toJson, hclassify, readAs, hread, Option.elim_some]
    · rw [hclassify]
      rfl

/-- The canonical form of a scalar is rebuilt, and has the kind of the scalar. -/
theorem rebuilds_toJson (text : String) :
    Rebuilds (toJson text) (.leaf (classify text).kind) := by
  have hrendered := rendered text
  generalize hv : toJson text = v, ht : classify text = t at hrendered ⊢
  cases hrendered with
  | null => exact ⟨.null, by rw [Json.toDatum, Datum.toTree], rfl, rfl⟩
  | boolean hb => exact rebuilds_boolean _
  | integer hn =>
    obtain ⟨n, hn', htypable⟩ := typable_of_classify ht
    obtain rfl := Option.some.inj (hn.symm.trans hn')
    exact rebuilds_integer htypable
  | double hd =>
    obtain ⟨d, hd', htype⟩ := double?_of_classify ht
    obtain rfl := Option.some.inj (hd.symm.trans hd')
    exact rebuilds_double htype
  | @date d hd =>
    obtain ⟨hclassify, hread⟩ := date_written d
    refine rebuilds_string ?_ (by rw [hclassify])
    simp only [toJson, hclassify, readAs, hread, Option.elim_some]
  | @time t htime =>
    obtain ⟨hclassify, hread⟩ := time_written t
    refine rebuilds_string ?_ (by rw [hclassify])
    simp only [toJson, hclassify, readAs, hread, Option.elim_some]
  | @timestamp t hstamp =>
    obtain ⟨hclassify, hread⟩ := timestamp_written t
    refine rebuilds_string ?_ (by rw [hclassify])
    simp only [toJson, hclassify, readAs, hread, Option.elim_some]
  | string => exact rebuilds_string hv (by rw [ht])

end Scalar

/-! ## Sequences and maps -/

namespace Tree

theorem rebuild_items {items : List Tree} (h : ∀ t ∈ items, Rebuilds t.toJson t.outline) :
    ∃ built, Datum.itemsToTrees (Json.itemsToData (itemsToJson items)) = .ok built ∧
      itemsToJson built = itemsToJson items ∧ itemsOutline built = itemsOutline items := by
  induction items with
  | nil => exact ⟨[], by rw [itemsToJson, Json.itemsToData, Datum.itemsToTrees], rfl, rfl⟩
  | cons t rest ih =>
    obtain ⟨ht, hrest⟩ := List.forall_mem_cons.mp h
    obtain ⟨first, hbuild, hform, hkinds⟩ := ht
    obtain ⟨others, hbuilds, hforms, houtlines⟩ := ih hrest
    refine ⟨first :: others, ?_, ?_, ?_⟩
    · rw [itemsToJson, Json.itemsToData, Datum.itemsToTrees, hbuild, hbuilds]
      rfl
    · rw [itemsToJson, itemsToJson, hform, hforms]
    · rw [itemsOutline, itemsOutline, hkinds, houtlines]

/-- The keys of a map are texts, and a text is a key for itself. -/
theorem rebuild_entries {entries : List (String × Tree)}
    (h : ∀ key t, (key, t) ∈ entries → Rebuilds t.toJson t.outline) :
    ∃ built, Datum.entriesToTrees (Json.entriesToData (entriesToJson entries)) = .ok built ∧
      entriesToJson built = entriesToJson entries ∧
      entriesOutline built = entriesOutline entries := by
  induction entries with
  | nil => exact ⟨[], by rw [entriesToJson, Json.entriesToData, Datum.entriesToTrees], rfl, rfl⟩
  | cons e rest ih =>
    obtain ⟨key, t⟩ := e
    obtain ⟨first, hbuild, hform, hkinds⟩ := h key t List.mem_cons_self
    obtain ⟨others, hbuilds, hforms, houtlines⟩ :=
      ih fun k s hs => h k s (List.mem_cons_of_mem _ hs)
    refine ⟨(key, first) :: others, ?_, ?_, ?_⟩
    · rw [entriesToJson, Json.entriesToData, Datum.entriesToTrees, hbuild, hbuilds, Datum.toTree]
      rfl
    · rw [entriesToJson, entriesToJson, hform, hforms]
    · rw [entriesOutline, entriesOutline, hkinds, houtlines]

theorem toJson_map (entries : List (String × Tree)) :
    toJson (.map entries) = .object (entriesToJson (Record.ofEntries entries)) := by
  rw [toJson, entriesToJson_eq_map, entriesToJson_eq_map, Record.ofEntries_map]

theorem outline_map (entries : List (String × Tree)) :
    outline (.map entries) = .map (entriesOutline (Record.ofEntries entries)) := by
  rw [outline, entriesOutline_eq_map, entriesOutline_eq_map, Record.ofEntries_map]

theorem names_entriesToJson (entries : List (String × Tree)) :
    Record.names (entriesToJson entries) = Record.names entries := by
  rw [entriesToJson_eq_map]
  exact Record.names_map (fun _ => toJson) entries

theorem rebuilds_toJson (t : Tree) : Rebuilds t.toJson t.outline := by
  induction t using nestedInduction with
  | null => exact ⟨.null, by rw [toJson, Json.toDatum, Datum.toTree], rfl, rfl⟩
  | scalar text =>
    rw [toJson, outline]
    exact Scalar.rebuilds_toJson text
  | sequence items ih =>
    obtain ⟨built, hbuild, hform, hkinds⟩ := rebuild_items ih
    refine ⟨.sequence built, ?_, ?_, ?_⟩
    · rw [toJson, Json.toDatum, Datum.toTree, hbuild]
      rfl
    · rw [toJson, toJson, hform]
    · rw [outline, outline, hkinds]
  | map entries ih =>
    obtain ⟨built, hbuild, hform, hkinds⟩ :=
      rebuild_entries fun key t ht => ih key t (Record.mem_of_mem_ofEntries ht)
    have hdistinct : Record.Distinct built := by
      unfold Record.Distinct
      rw [← names_entriesToJson, hform, names_entriesToJson]
      exact Record.distinct_ofEntries entries
    have hself := Record.ofEntries_eq_self hdistinct
    refine ⟨.map built, ?_, ?_, ?_⟩
    · rw [toJson_map, Json.toDatum, Datum.toTree, hbuild]
      exact congrArg (fun es => Except.ok (Tree.map es)) hself
    · rw [toJson_map, toJson_map, hself, hform]
    · rw [outline_map, outline_map, hself, hkinds]

/-- **The canonical form is the canonical form of itself.** From the canonical form of any document
a document is built. Its canonical form is the same value, with the names of each map in the same
order, and so is the text. Every scalar that is written has the kind of the scalar in its place: a
truth value, an integer, a double with digits or without, a date, a time, a timestamp or a
string. -/
theorem canonical_form_rebuilds (t : Tree) :
    ∃ built, t.toJson.toDatum.toTree = .ok built ∧ built.toJson = t.toJson ∧
      built.jsonText = t.jsonText ∧ built.outline = t.outline := by
  obtain ⟨built, hbuild, hform, hkinds⟩ := rebuilds_toJson t
  refine ⟨built, hbuild, hform, ?_, hkinds⟩
  rw [jsonText, jsonText, hform]

end Tree

end Columnar
