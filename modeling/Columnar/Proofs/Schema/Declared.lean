import Columnar.Proofs.Schema.Columns

/-!
# Declared columns

A column whose type is declared has that type from its first value on, and settling leaves it alone.
The synthetic column of a population without columns is made from the documents instead, and what is
declared under its name is not looked at. Main statement: declared types win in a schema exactly if
the synthetic column is not there, is not declared, or is declared with the type that its documents
have anyway.
-/

namespace Columnar.Schema

open ColumnType (unifyAll settle)

variable (config : Config)

/-- The type that documents have as whole documents: that of those that are no maps, taken together,
and a string if there are none. -/
def wholeType (documents : List Tree) : ColumnType :=
  (unifyAll ((nonMaps documents).map (typeWith config))).elim .string settle

theorem schema_seenIn_of_isEmpty {documents : List Tree}
    (h : (seenIn config documents).types.isEmpty = true) :
    (seenIn config documents).schema config = ofValues (wholeType config documents) := by
  rw [schema_of_isEmpty config h, seenIn_fallback, wholeType]

/-- Where there are columns, each declared one has the declared type. -/
theorem eq_declared_of_mem_schema {documents : List Tree} {name : String} {t d : ColumnType}
    (hcolumns : ¬ (seenIn config documents).types.isEmpty = true)
    (hmem : (name, t) ∈ ((seenIn config documents).schema config).fields)
    (hdeclared : Record.get? name config.declared = some d) : t = d := by
  have hnames : Record.names ((seenIn config documents).schema config).fields =
      Record.names (seenIn config documents).types := names_schema config hcolumns
  have hdistinct : Record.Distinct ((seenIn config documents).schema config).fields := by
    rw [Record.Distinct, hnames]
    exact distinct_seenIn config documents
  have hname : name ∈ Record.names (entriesOf documents) := by
    rw [← mem_names_seenIn config, ← hnames]
    exact List.mem_map_of_mem hmem
  have hget := Record.get?_of_mem hdistinct hmem
  exact Option.some.inj (hget.symm.trans (get?_schema_declared hcolumns hdeclared hname))

/-- **Declared types win except over whole documents.** In the schema of any population under any
parameters, every column with a declared type has exactly that type if and only if some document
that is looked at has an entry, or the name of the synthetic column is not declared, or it is
declared with the type that the documents have as whole documents. Without an entry, that type is
the one of the only column, whatever is declared. -/
theorem declared_types_win_except_over_whole_documents (batches : List (List Tree)) :
    ((∀ name t d, (name, t) ∈ (infer config batches).result.fields →
        Record.get? name config.declared = some d → t = d) ↔
      ((∀ document ∈ sample config batches, document.entries = []) →
        ∀ d, Record.get? documentColumn config.declared = some d →
          wholeType config (sample config batches) = d)) ∧
    ((∀ document ∈ sample config batches, document.entries = []) →
      (infer config batches).result = ofValues (wholeType config (sample config batches))) := by
  have hresult : (infer config batches).result =
      (seenIn config (sample config batches)).schema config := rfl
  rw [hresult, ← isEmpty_types_seenIn config]
  by_cases hempty : (seenIn config (sample config batches)).types.isEmpty = true
  · have hschema := schema_seenIn_of_isEmpty config hempty
    refine ⟨⟨fun hwins _ d hd => ?_, fun hwhole name t d hmem hd => ?_⟩, fun _ => hschema⟩
    · refine hwins documentColumn _ d ?_ hd
      rw [hschema]
      exact List.mem_singleton_self _
    · rw [hschema] at hmem
      obtain ⟨rfl, rfl⟩ := Prod.mk.inj (List.mem_singleton.mp hmem)
      exact hwhole hempty d hd
  · refine ⟨⟨fun _ h => absurd h hempty, fun _ name t d hmem hd => ?_⟩, fun h => absurd h hempty⟩
    exact eq_declared_of_mem_schema config hempty hmem hd

/-- Without documents the synthetic column is a string although a double is declared for it. -/
theorem declared_types_do_not_win_over_no_documents :
    (∀ document ∈ sample { declared := [(documentColumn, .double)] } [], document.entries = []) ∧
      (infer { declared := [(documentColumn, .double)] } []).result = ofValues .string := by
  have hnone : ∀ document ∈ sample { declared := [(documentColumn, .double)] } [],
      document.entries = [] := fun _ h => absurd h List.not_mem_nil
  exact ⟨hnone, (declared_types_win_except_over_whole_documents _ []).2 hnone⟩

/-- A scalar makes the synthetic column an integer although a double is declared for it. -/
theorem declared_type_of_synthetic_column_is_passed_over :
    ∃ t, (documentColumn, t) ∈
        (infer { declared := [(documentColumn, .double)] } [[.scalar "1"]]).result.fields ∧
      Record.get? documentColumn [(documentColumn, ColumnType.double)] = some .double ∧
      t ≠ .double := by
  refine ⟨.integer .w8, ?_, rfl, nofun⟩
  have hfields : (infer { declared := [(documentColumn, .double)] } [[.scalar "1"]]).result.fields =
      [(documentColumn, .integer .w8)] := by rfl
  rw [hfields]
  exact List.mem_singleton_self _

end Columnar.Schema
