import Columnar.Proofs.Record.Lookup
import Columnar.Tree

/-!
# Induction over documents

A document is well-formed if no map inside it names a key twice; that is what `Tree.mapOf` builds
and what parsing returns. Lemmas about documents go by the nesting of nodes.
-/

namespace Columnar.Tree

mutual

/-- Induction over the nesting of a document. -/
@[elab_as_elim]
theorem nestedInduction {motive : Tree → Prop} (null : motive .null)
    (scalar : ∀ text, motive (.scalar text))
    (sequence : ∀ items, (∀ t ∈ items, motive t) → motive (.sequence items))
    (map : ∀ entries, (∀ key t, (key, t) ∈ entries → motive t) → motive (.map entries)) :
    ∀ t, motive t
  | .null => null
  | .scalar text => scalar text
  | .sequence items =>
    sequence items (nestedInduction_items null scalar sequence map items)
  | .map entries => map entries (nestedInduction_entries null scalar sequence map entries)

theorem nestedInduction_items {motive : Tree → Prop} (null : motive .null)
    (scalar : ∀ text, motive (.scalar text))
    (sequence : ∀ items, (∀ t ∈ items, motive t) → motive (.sequence items))
    (map : ∀ entries, (∀ key t, (key, t) ∈ entries → motive t) → motive (.map entries)) :
    ∀ (items : List Tree) (t : Tree), t ∈ items → motive t
  | [], _, h => by cases h
  | s :: rest, t, h => by
    have hs := nestedInduction null scalar sequence map s
    rcases List.mem_cons.mp h with h | h
    · exact h ▸ hs
    · exact nestedInduction_items null scalar sequence map rest t h

theorem nestedInduction_entries {motive : Tree → Prop} (null : motive .null)
    (scalar : ∀ text, motive (.scalar text))
    (sequence : ∀ items, (∀ t ∈ items, motive t) → motive (.sequence items))
    (map : ∀ entries, (∀ key t, (key, t) ∈ entries → motive t) → motive (.map entries)) :
    ∀ (entries : List (String × Tree)) (key : String) (t : Tree), (key, t) ∈ entries → motive t
  | [], _, _, h => by cases h
  | (k, s) :: rest, key, t, h => by
    have hs := nestedInduction null scalar sequence map s
    rcases List.mem_cons.mp h with h | h
    · obtain ⟨-, rfl⟩ : key = k ∧ t = s := by simpa using h
      exact hs
    · exact nestedInduction_entries null scalar sequence map rest key t h

end

theorem allWellFormed_iff {items : List Tree} :
    AllWellFormed items ↔ ∀ t ∈ items, t.WellFormed := by
  induction items with
  | nil => simp [AllWellFormed]
  | cons s rest ih => rw [AllWellFormed, ih, List.forall_mem_cons]

theorem entriesWellFormed_iff {entries : List (String × Tree)} :
    EntriesWellFormed entries ↔ ∀ key t, (key, t) ∈ entries → t.WellFormed := by
  induction entries with
  | nil => simp [EntriesWellFormed]
  | cons e rest ih =>
    obtain ⟨k, s⟩ := e
    simp only [EntriesWellFormed, ih, List.mem_cons, Prod.mk.injEq]
    constructor
    · rintro ⟨hs, hrest⟩ key t (⟨rfl, rfl⟩ | h)
      · exact hs
      · exact hrest key t h
    · exact fun h => ⟨h k s (Or.inl ⟨rfl, rfl⟩), fun key t ht => h key t (Or.inr ht)⟩

theorem WellFormed.item {items : List Tree} {t : Tree} (h : WellFormed (.sequence items))
    (ht : t ∈ items) : t.WellFormed := by
  rw [WellFormed, allWellFormed_iff] at h
  exact h t ht

theorem WellFormed.keys {entries : List (String × Tree)} (h : WellFormed (.map entries)) :
    Record.Distinct entries := by
  rw [WellFormed] at h
  exact h.1

theorem WellFormed.child {entries : List (String × Tree)} {key : String} {t : Tree}
    (h : WellFormed (.map entries)) (ht : (key, t) ∈ entries) : t.WellFormed := by
  rw [WellFormed, entriesWellFormed_iff] at h
  exact h.2 key t ht

end Columnar.Tree
