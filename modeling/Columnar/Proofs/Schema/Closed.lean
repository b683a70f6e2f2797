import Columnar.Proofs.ColumnType.Contains
import Columnar.Proofs.Schema.Shape

/-!
# Inferred types are closed

Inference leaves nothing open inside a type: no part of it is without a variant, no part is kept as
text of its document, and no struct in it names a field twice. Detection alone does not give that,
since what was never seen with a value is `null` until the last step. Declared columns are as they
were declared. Main statement: `inferred_types_are_closed`.
-/

namespace Columnar.ColumnType

/-- Every part of the type is of a variant that scalars, lists and maps have, and its structs name
each field once. -/
structure Closed (t : ColumnType) : Prop where
  no_null : ¬ t.Contains .null
  no_any : ¬ t.Contains .any
  distinct : t.Distinct

/-- Settling closes what holds no text of documents. -/
theorem closed_settle {t : ColumnType} (h : ¬ t.Contains .any) : (settle t).Closed where
  no_null := not_contains_null_settle t
  no_any := by
    intro hany
    rcases hany.of_settle with hk | hany
    · cases hk
    · exact h hany
  distinct := settle_distinct t

end Columnar.ColumnType

namespace Columnar.Schema

open ColumnType (unifyAll settle Closed)

variable (config : Config)

theorem not_contains_any_typeWith (node : Tree) : ¬ (typeWith config node).Contains .any := by
  unfold typeWith
  split
  · exact ColumnType.not_contains_any_ofTree node
  · intro h
    cases (ColumnType.contains_plain rfl).mp h

/-- What nodes have in common, if there are any, is closed once it is settled. -/
theorem closed_of_unifyAll {nodes : List Tree} {t : ColumnType}
    (h : unifyAll (nodes.map (typeWith config)) = some t) : (settle t).Closed := by
  apply ColumnType.closed_settle
  intro hany
  have hdistinct : ∀ s ∈ nodes.map (typeWith config), s.Distinct :=
    List.forall_mem_map.mpr fun node _ => typeWith_distinct config node
  rcases hany.of_unifyAll hdistinct h with hk | ⟨s, hs, hany⟩
  · cases hk
  · obtain ⟨node, -, rfl⟩ := List.mem_map.mp hs
    exact not_contains_any_typeWith config node hany

/-- The type of whole documents is closed, also if there are none. -/
theorem closed_whole (nodes : List Tree) :
    ((unifyAll (nodes.map (typeWith config))).elim .string settle).Closed := by
  cases h : unifyAll (nodes.map (typeWith config)) with
  | none =>
    show (settle .string).Closed
    apply ColumnType.closed_settle
    intro hany
    cases (ColumnType.contains_plain rfl).mp hany
  | some t => exact closed_of_unifyAll config h

/-- A column that is not declared is closed. -/
theorem closed_column {documents : List Tree} {name : String} {t : ColumnType}
    (hdeclared : Record.get? name config.declared = none)
    (h : (name, t) ∈ (seenIn config documents).types) : (settled config name t).Closed := by
  have hget := Record.get?_of_mem (distinct_seenIn config documents) h
  rw [get?_seenIn config hdeclared] at hget
  rw [settled, hdeclared, Option.isSome_none, if_neg Bool.false_ne_true]
  exact closed_of_unifyAll config hget

/-- **Inferred types are closed.** Whatever the parameters and the population, no column of the
schema has `null` or `any` anywhere inside its type, nor a struct that names a field twice, unless
it is a declared column; the column of whole documents is never one, whatever is declared under its
name. The same holds of the type of whole documents. -/
theorem inferred_types_are_closed :
    (∀ (batches : List (List Tree)) (name : String) (t : ColumnType),
      (name, t) ∈ (infer config batches).result.fields →
      ((infer config batches).result.wholeDocuments = true ∨
        Record.get? name config.declared = none) → t.Closed) ∧
    ∀ documents : List Tree, (documentType config documents).result.Closed := by
  constructor
  · intro batches name t hmem hinferred
    rw [result_infer] at hmem hinferred
    rw [wholeDocuments_schema] at hinferred
    by_cases hempty : (seenIn config (sample config batches)).types.isEmpty = true
    · rw [schema_of_isEmpty config hempty] at hmem
      cases List.mem_singleton.mp hmem
      rw [seenIn_fallback]
      exact closed_whole config _
    · rw [schema_of_not_isEmpty config hempty] at hmem
      obtain ⟨e, he, heq⟩ := List.mem_map.mp hmem
      cases heq
      exact closed_column config (hinferred.resolve_left hempty) he
  · intro documents
    show (documentTypeFrom config documents).Closed
    rw [documentTypeFrom_eq]
    exact closed_whole config _

/-- An inferred column beside a declared one that keeps text of the documents. Its values are lists
of maps with an item that has no value, a repeated key and an empty list, so there is something to
settle at each depth. A population without maps has a column under the declared name all the same,
and that one is inferred. -/
theorem inferred_beside_declared_is_closed :
    let config : Config := { declared := [("value", .any)] }
    let batches : List (List Tree) :=
      [[.map [("value", .null),
          ("a", .sequence [.null, .map [("b", .null), ("b", .sequence [])]])]],
        [.map [("a", .sequence [.map [("c", .scalar "1")]])]]]
    (∃ t, ("a", t) ∈ (infer config batches).result.fields ∧
      Record.get? "a" config.declared = none ∧ t.Closed) ∧
    (∃ t, ("value", t) ∈ (infer config [[.null]]).result.fields ∧
      (infer config [[.null]]).result.wholeDocuments = true ∧ t.Closed) ∧
    (documentType config [.null, .sequence []]).result.Closed := by
  intro config batches
  have ha : ("a", ColumnType.list (.struct [("b", .list .string), ("c", .integer .w8)])) ∈
      (infer config batches).result.fields := List.mem_cons_of_mem _ List.mem_cons_self
  have hvalue : ("value", ColumnType.string) ∈ (infer config [[.null]]).result.fields :=
    List.mem_cons_self
  refine ⟨⟨_, ha, rfl, ?_⟩, ⟨_, hvalue, rfl, ?_⟩, ?_⟩
  · exact (inferred_types_are_closed config).1 batches "a" _ ha (Or.inr rfl)
  · exact (inferred_types_are_closed config).1 [[.null]] "value" _ hvalue (Or.inl rfl)
  · exact (inferred_types_are_closed config).2 _

end Columnar.Schema
