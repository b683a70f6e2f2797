import Columnar.Proofs.ColumnType.OfTree

/-!
# Variants inside a type

A type contains a variant if it is of that variant itself or some type nested in it is. Unification
and the combination of fields bring in strings and no other variant, settling brings in strings and
takes every `null` out, and the type of a document contains `any` nowhere. Main statements:
`known_of_contains_unify`, `not_contains_null_settle` and `not_contains_any_ofTree`.
-/

namespace Columnar.ColumnType

open Record (last? get?)

/-- A type of this variant stands somewhere in the type. -/
inductive Contains (k : Kind) : ColumnType → Prop
  | here {t} : t.kind = k → Contains k t
  | element {t} : Contains k t → Contains k (.list t)
  | field {fs name t} : (name, t) ∈ fs → Contains k t → Contains k (.struct fs)

variable {k : Kind} {t u : ColumnType} {fs gs : List (String × ColumnType)}

theorem contains_plain (ht : t.isNested = false) : t.Contains k ↔ t.kind = k := by
  constructor
  · intro h
    cases h with
    | here h => exact h
    | element | field => cases ht
  · exact .here

theorem contains_list : (list t).Contains k ↔ k = .list ∨ t.Contains k := by
  constructor
  · intro h
    cases h with
    | here h => exact Or.inl h.symm
    | element h => exact Or.inr h
  · rintro (rfl | h)
    · exact .here rfl
    · exact .element h

theorem contains_struct :
    (struct fs).Contains k ↔ k = .struct ∨ ∃ name t, (name, t) ∈ fs ∧ t.Contains k := by
  constructor
  · intro h
    cases h with
    | here h => exact Or.inl h.symm
    | field hmem h => exact Or.inr ⟨_, _, hmem, h⟩
  · rintro (rfl | ⟨name, t, hmem, h⟩)
    · exact .here rfl
    · exact .field hmem h

/-- Collapsing fields brings in no variant. -/
theorem Contains.of_structOf (h : (structOf fs).Contains k) : (struct fs).Contains k := by
  rw [structOf, contains_struct] at h
  rw [contains_struct]
  rcases h with hstruct | ⟨name, t, hmem, h⟩
  · exact Or.inl hstruct
  · exact Or.inr ⟨name, t, Record.mem_of_mem_ofEntries hmem, h⟩

/-! ## Unification -/

/-- The variant is a string's, or one of two types contains it. -/
def Known (k : Kind) (t u : ColumnType) : Prop := k = .string ∨ t.Contains k ∨ u.Contains k

namespace Known

theorem left (h : t.Contains k) : Known k t u := Or.inr (Or.inl h)

theorem right (h : u.Contains k) : Known k t u := Or.inr (Or.inr h)

theorem string (h : ColumnType.string.Contains k) : Known k t u :=
  Or.inl ((contains_plain rfl).mp h).symm

theorem list (h : Known k t u) : Known k (.list t) (.list u) :=
  h.imp_right (Or.imp .element .element)

/-- A list of what two types are made to is known if what they are made to is. -/
theorem of_list {s : ColumnType} (hs : s.Contains k → Known k t u)
    (h : (ColumnType.list s).Contains k) : Known k (.list t) (.list u) := by
  rcases contains_list.mp h with rfl | h
  · exact left (.here rfl)
  · exact (hs h).list

/-- The fields of two structs together are known if the shared ones are. -/
theorem of_combineStructs (hgs : Record.Distinct gs)
    (hshared : ∀ name s r, (name, s) ∈ fs → (name, r) ∈ gs →
      (combineField s r).Contains k → Known k s r)
    (h : (combineStructs fs gs).Contains k) : Known k (.struct fs) (.struct gs) := by
  rcases contains_struct.mp h with rfl | ⟨name, j, hj, h⟩
  · exact left (.here rfl)
  rcases mem_combineFields hgs hj with hj | hj | ⟨s, r, hs, hr, rfl⟩
  · exact left (.field hj h)
  · exact right (.field hj h)
  · exact (hshared name s r hs hr h).imp_right (Or.imp (.field hs) (.field hr))

end Known

theorem known_of_contains_combineField (ht : t.Distinct) (hu : u.Distinct) :
    (combineField t u).Contains k → Known k t u := by
  induction t using fieldInduction generalizing u with
  | step t ih =>
  unfold combineField
  split
  · exact .left
  split
  case h_1 => exact .right
  case h_2 => exact .left
  case h_3 fs gs _ =>
    exact .of_combineStructs hu.fields fun name s r hmem hr =>
      ih fs name s (Or.inl rfl) hmem (ht.field hmem) (hu.field hr)
  case h_4 => exact .right
  case h_5 => exact .left
  case h_6 fs gs _ =>
    exact .of_list (.of_combineStructs hu.element.fields fun name s r hmem hr =>
      ih fs name s (Or.inr rfl) hmem (ht.element.field hmem) (hu.element.field hr))
  case h_7 => exact .of_list .string
  case h_8 => exact .string

theorem known_of_contains_widen (ht : t.isNumeric = true) (hu : u.isNumeric = true)
    (h : (widen t u).Contains k) : Known k t u := by
  rcases widen_cases ht hu with ⟨v, w, rfl, rfl⟩ | ⟨hwiden, hdouble⟩
  · have hk : Kind.integer = k := (contains_plain rfl).mp h
    exact .left (.here hk)
  rw [hwiden] at h
  rcases hdouble with rfl | rfl
  · exact .left h
  · exact .right h

/-- Unification brings in no variant but strings. -/
theorem known_of_contains_unify {t u : ColumnType} (ht : t.Distinct) (hu : u.Distinct) :
    (unify t u).Contains k → Known k t u := by
  unfold unify
  split
  · exact .left
  split
  case h_1 => exact .right
  case h_2 => exact .left
  case h_3 fs gs _ =>
    exact .of_combineStructs hu.fields fun name s r hs hr =>
      known_of_contains_combineField (ht.field hs) (hu.field hr)
  case h_4 t u _ => exact .of_list (known_of_contains_unify ht.element hu.element)
  case h_5 =>
    split
    next hnumeric =>
      rw [Bool.and_eq_true] at hnumeric
      exact known_of_contains_widen hnumeric.1 hnumeric.2
    next => exact .string

/-- A fold of types brings in no variant but strings. -/
theorem Contains.of_foldl_unify {ts : List ColumnType} (ht : t.Distinct)
    (hts : ∀ s ∈ ts, s.Distinct) (h : (ts.foldl unify t).Contains k) :
    k = .string ∨ ∃ s ∈ t :: ts, s.Contains k := by
  induction ts generalizing t with
  | nil => exact Or.inr ⟨t, List.mem_cons_self, h⟩
  | cons s rest ih =>
    rw [List.forall_mem_cons] at hts
    rcases ih (unify_distinct ht hts.1) hts.2 h with hk | ⟨r, hr, h⟩
    · exact Or.inl hk
    rcases List.mem_cons.mp hr with rfl | hr
    · rcases known_of_contains_unify ht hts.1 h with hk | h | h
      · exact Or.inl hk
      · exact Or.inr ⟨t, List.mem_cons_self, h⟩
      · exact Or.inr ⟨s, List.mem_cons_of_mem t List.mem_cons_self, h⟩
    · exact Or.inr ⟨r, List.mem_cons_of_mem t (List.mem_cons_of_mem s hr), h⟩

theorem Contains.of_unifyAll {ts : List ColumnType} (hts : ∀ s ∈ ts, s.Distinct)
    (hall : unifyAll ts = some t) (h : t.Contains k) :
    k = .string ∨ ∃ s ∈ ts, s.Contains k := by
  cases ts with
  | nil => cases hall
  | cons s rest =>
    cases hall
    rw [List.forall_mem_cons] at hts
    exact Contains.of_foldl_unify hts.1 hts.2 h

/-! ## Settling -/

theorem mem_settleFields {name : String} (h : (name, t) ∈ settleFields fs) :
    ∃ s, (name, s) ∈ fs ∧ t = settle s := by
  rw [settleFields_eq] at h
  obtain ⟨f, hf, heq⟩ := List.mem_map.mp h
  cases heq
  exact ⟨f.2, hf, rfl⟩

/-- Settling brings in no variant but strings. -/
theorem Contains.of_settle (h : (settle t).Contains k) : k = .string ∨ t.Contains k := by
  induction t using nestedInduction with
  | plain t ht =>
    cases t with
    | null => exact Or.inl ((contains_plain rfl).mp h).symm
    | list | struct => cases ht
    | _ => exact Or.inr h
  | list t ih =>
    rcases contains_list.mp h with rfl | h
    · exact Or.inr (.here rfl)
    · exact (ih h).imp_right .element
  | struct fs ih =>
    rcases contains_struct.mp (of_structOf h) with rfl | ⟨name, j, hj, h⟩
    · exact Or.inr (.here rfl)
    · obtain ⟨s, hs, rfl⟩ := mem_settleFields hj
      exact (ih name s hs h).imp_right (.field hs)

/-- Nothing is left without a value. -/
theorem not_contains_null_settle (t : ColumnType) : ¬ (settle t).Contains .null := by
  induction t using nestedInduction with
  | plain t ht =>
    intro h
    cases t with
    | list | struct => cases ht
    | _ => cases (contains_plain rfl).mp h
  | list t ih =>
    intro h
    rcases contains_list.mp h with hk | h
    · cases hk
    · exact ih h
  | struct fs ih =>
    intro h
    rcases contains_struct.mp (Contains.of_structOf h) with hk | ⟨name, j, hj, h⟩
    · cases hk
    · obtain ⟨s, hs, rfl⟩ := mem_settleFields hj
      exact ih name s hs h

/-! ## Types of documents -/

theorem classify_kind_ne_any (text : String) : (Scalar.classify text).kind ≠ .any := by
  have h := Scalar.classified text
  generalize Scalar.classify text = t at h
  cases h <;> exact Kind.noConfusion

/-- No part of a document is kept as text of the document. -/
theorem not_contains_any_ofTree (t : Tree) : ¬ (ofTree t).Contains .any := by
  induction t using Tree.nestedInduction with
  | null =>
    intro h
    cases (contains_plain rfl).mp h
  | scalar text =>
    intro h
    rw [ofTree, contains_plain (Scalar.classify_plain text)] at h
    exact classify_kind_ne_any text h
  | sequence items ih =>
    intro h
    rw [ofTree, contains_list, ofItems_eq] at h
    rcases h with hk | h
    · cases hk
    have hitems : ∀ s ∈ items.map ofTree, s.Distinct :=
      List.forall_mem_map.mpr fun t _ => ofTree_distinct t
    rcases Contains.of_foldl_unify (.of_plain rfl) hitems h with hk | ⟨s, hs, h⟩
    · cases hk
    rcases List.mem_cons.mp hs with rfl | hs
    · cases (contains_plain rfl).mp h
    · obtain ⟨t, ht, rfl⟩ := List.mem_map.mp hs
      exact ih t ht h
  | map entries ih =>
    intro h
    rw [ofTree] at h
    rcases contains_struct.mp (Contains.of_structOf h) with hk | ⟨name, s, hs, h⟩
    · cases hk
    · rw [ofEntries_eq] at hs
      obtain ⟨e, he, heq⟩ := List.mem_map.mp hs
      cases heq
      exact ih e.1 e.2 he h

end Columnar.ColumnType
