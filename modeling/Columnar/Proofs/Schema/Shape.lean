import Columnar.Proofs.Record.Order
import Columnar.Proofs.Schema.Columns

/-!
# The shape of a schema

A schema is one of whole documents exactly if no document that is looked at has an entry, so maps
without entries count for nothing. Otherwise its columns are the keys in the order in which they are
first seen, and each is inferred on its own: a declared one has its declared type, any other the
type of the values under its key, and nothing else in the population reaches it. Main statements:
`whole_documents_iff_all_maps_empty` and `columns_are_inferred_independently`.
-/

namespace Columnar.Schema

open ColumnType (unifyAll settle)

variable (config : Config)

/-! ## Columns or whole documents -/

theorem wholeDocuments_schema (seen : Columns) :
    (seen.schema config).wholeDocuments = seen.types.isEmpty := by
  cases h : seen.types.isEmpty with
  | true => rw [schema_of_isEmpty config h, ofValues]
  | false =>
    rw [schema_of_not_isEmpty config (by rw [h]; exact Bool.false_ne_true), ofFields]

/-- There are columns as soon as one document has an entry. -/
theorem not_isEmpty_of_entry {documents : List Tree} (h : ∃ d ∈ documents, d.entries ≠ []) :
    ¬ (seenIn config documents).types.isEmpty = true := by
  obtain ⟨d, hd, hentries⟩ := h
  rw [isEmpty_types_seenIn]
  intro hempty
  exact hentries (hempty d hd)

/-- **Whole documents stand for maps without entries too.** The schema of a population is one of
whole documents if and only if all maps that are looked at are empty: what is asked is not whether
there is a map, but whether there is an entry. -/
theorem whole_documents_iff_all_maps_empty (batches : List (List Tree)) :
    (infer config batches).result.wholeDocuments = true ↔
      ∀ d ∈ sample config batches, d.isMap = true → d.entries = [] := by
  rw [result_infer, wholeDocuments_schema, isEmpty_types_seenIn]
  constructor
  · intro hempty d hd _
    exact hempty d hd
  · intro hempty d hd
    cases hmap : d.isMap with
    | true => exact hempty d hd hmap
    | false => exact entries_of_not_isMap hmap

/-- A map without entries makes the schema one of whole documents. -/
theorem empty_map_is_read_as_whole_document :
    (infer {} [[.map []]]).result.wholeDocuments = true ∧
      ∃ d ∈ sample {} [[.map []]], d.isMap = true :=
  ⟨rfl, .map [], List.mem_singleton_self _, rfl⟩

/-! ## Columns in first-seen order -/

theorem names_seenIn (documents : List Tree) :
    Record.names (seenIn config documents).types =
      (Record.names (entriesOf documents)).eraseDups := by
  have hnew : Record.Distinct ([] : Record ColumnType) := List.nodup_nil
  rw [seenIn_types, Record.names_foldl (addValue_eq_put config) _ hnew]
  rfl

/-! ## Each column on its own -/

/-- **Columns are inferred independently, in first-seen order.** If some document that is looked at
has an entry, the schema has the keys of all maps that are looked at as its columns, in the order of
their first occurrences. A declared column has the declared type. Any other column has the settled
type of the values stored under its key, which are unified in order. Two populations that store the
same values under a key give it the same column, whatever else they hold and whatever is declared
for other columns. -/
theorem columns_are_inferred_independently (batches : List (List Tree))
    (hentry : ∃ d ∈ sample config batches, d.entries ≠ []) :
    (infer config batches).result.wholeDocuments = false ∧
    (infer config batches).result.names =
      (Record.names (entriesOf (sample config batches))).eraseDups ∧
    (∀ key ∈ Record.names (entriesOf (sample config batches)),
      (∀ t, Record.get? key config.declared = some t →
        (infer config batches).result.get? key = some t) ∧
      (Record.get? key config.declared = none →
        ∃ t, unifyAll ((valuesUnder key (entriesOf (sample config batches))).map
            (typeWith config)) = some t ∧
          (infer config batches).result.get? key = some (settle t)) ∧
      (∀ (config' : Config) (batches' : List (List Tree)),
        config'.detectTypes = config.detectTypes →
        Record.get? key config.declared = none → Record.get? key config'.declared = none →
        valuesUnder key (entriesOf (sample config' batches')) =
          valuesUnder key (entriesOf (sample config batches)) →
        (infer config' batches').result.get? key = (infer config batches).result.get? key)) := by
  have hcolumns := not_isEmpty_of_entry config hentry
  simp only [result_infer]
  refine ⟨?_, ?_, ?_⟩
  · rw [wholeDocuments_schema]
    exact Bool.not_eq_true _ ▸ hcolumns
  · rw [names_schema config hcolumns, names_seenIn]
  intro key hkey
  refine ⟨?_, ?_, ?_⟩
  · intro t hdeclared
    exact get?_schema_declared hcolumns hdeclared hkey
  · intro hdeclared
    have hsome : (valuesUnder key (entriesOf (sample config batches))).map (typeWith config) ≠ [] := by
      rw [Ne, List.map_eq_nil_iff, valuesUnder_eq_nil_iff]
      exact fun h => h hkey
    obtain ⟨t, ht⟩ := ColumnType.unifyAll_of_ne_nil hsome
    refine ⟨t, ht, ?_⟩
    rw [get?_schema_undeclared hcolumns hdeclared, ht, Option.map_some]
  · intro config' batches' hdetect hdeclared hdeclared' hvalues
    have htype : typeWith config' = typeWith config := by
      funext node
      rw [typeWith, typeWith, hdetect]
    -- The other population has the key too, and so it has columns.
    have hcolumns' : ¬ (seenIn config' (sample config' batches')).types.isEmpty = true := by
      rw [isEmpty_types_seenIn]
      intro hempty
      have hnone : entriesOf (sample config' batches') = [] := List.flatMap_eq_nil_iff.mpr hempty
      rw [hnone] at hvalues
      exact valuesUnder_eq_nil_iff.mp hvalues.symm hkey
    rw [get?_schema_undeclared hcolumns' hdeclared', get?_schema_undeclared hcolumns hdeclared,
      hvalues, htype]

/-- Two maps, with a scalar between them, one column declared and the other inferred; the inferred
one is the same without the declaration, the scalar and the declared column. -/
theorem columns_are_inferred_beside_a_declared_one :
    let config : Config := { declared := [("id", .string)] }
    let batches : List (List Tree) :=
      [[.map [("n", .null), ("id", .scalar "1")], .scalar "x"], [.map [("n", .scalar "300")]]]
    (∃ d ∈ sample config batches, d.entries ≠ []) ∧
      (infer config batches).result.names = ["n", "id"] ∧
      (infer config batches).result.get? "id" = some .string ∧
      (infer config batches).result.get? "n" = some (.integer .w16) ∧
      (infer {} [[.map [("n", .null)], .map [("n", .scalar "300")]]]).result.get? "n" =
        (infer config batches).result.get? "n" := by
  intro config batches
  have hentry : ∃ d ∈ sample config batches, d.entries ≠ [] :=
    ⟨_, List.mem_cons_self, List.cons_ne_nil _ _⟩
  obtain ⟨-, hnames, hcolumn⟩ := columns_are_inferred_independently config batches hentry
  obtain ⟨t, ht, hn⟩ := (hcolumn "n" List.mem_cons_self).2.1 rfl
  have hid := (hcolumn "id" (List.mem_cons_of_mem _ List.mem_cons_self)).1 .string rfl
  refine ⟨hentry, hnames.trans (by decide), hid, ?_, ?_⟩
  · obtain rfl : ColumnType.integer .w16 = t := Option.some.inj ht
    exact hn
  · exact (hcolumn "n" List.mem_cons_self).2.2 {} _ rfl rfl rfl rfl

end Columnar.Schema
