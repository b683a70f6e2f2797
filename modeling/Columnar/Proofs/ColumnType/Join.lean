import Columnar.ColumnType.Unify
import Columnar.Proofs.ColumnType.Within

/-!
# Unification is a least upper bound

`ColumnType.unify` joins two types in the order of columns and `ColumnType.combineField` in that of
fields: the result has room for both types and every type with room for both has room for it. The
two functions compare by agreement, look fields up one by one and give up on types they cannot
bring together; `Combinable` says which types those are not.
-/

namespace Columnar.ColumnType

open Record (last? get?)

/-- A narrowest type with room for two types. -/
structure IsJoin (p : Place) (t u j : ColumnType) : Prop where
  left : Within p t j
  right : Within p u j
  least : ∀ {c}, Within p t c → Within p u c → Within p j c

namespace IsJoin

variable {p q : Place} {t u j k c : ColumnType} {fs gs hs : List (String × ColumnType)}

theorem symm (h : IsJoin p t u j) : IsJoin p u t j :=
  ⟨h.right, h.left, fun hu ht => h.least ht hu⟩

/-- What has room for the join is what has room for both types. -/
theorem within_iff (h : IsJoin p t u j) : Within p j c ↔ Within p t c ∧ Within p u c :=
  ⟨fun hj => ⟨h.left.trans hj, h.right.trans hj⟩, fun hc => h.least hc.1 hc.2⟩

/-- Two joins of the same types agree. -/
theorem unique (h : IsJoin p t u j) (h' : IsJoin p t u k) : j.agrees k = true :=
  (h.least h'.left h'.right).antisymm (h'.least h.left h.right)

theorem comm (h : IsJoin p t u j) (h' : IsJoin p u t k) : j.agrees k = true := h.unique h'.symm

/-- The join of three types does not depend on which two are joined first. -/
theorem assoc {l r : ColumnType} (htu : IsJoin p t u j) (hl : IsJoin p j c l)
    (huc : IsJoin p u c k) (hr : IsJoin p t k r) : l.agrees r = true := by
  refine Within.agrees_of_forall p fun b => ?_
  rw [hl.within_iff, htu.within_iff, hr.within_iff, huc.within_iff, and_assoc]

theorem congr {t' u' : ColumnType} (h : IsJoin p t u j) (h' : IsJoin p t' u' k)
    (ht : t.agrees t' = true) (hu : u.agrees u' = true) : j.agrees k = true := by
  refine Within.agrees_of_forall p fun b => ?_
  rw [h.within_iff, h'.within_iff, Within.congr ht, Within.congr hu]

theorem of_agrees (h : t.agrees u = true) : IsJoin p t u t :=
  ⟨.refl p t, .alike (agrees_symm h), fun ht _ => ht⟩

theorem null_left : IsJoin p .null u u := ⟨.null, .refl p u, fun _ hu => hu⟩

theorem null_right : IsJoin p t .null t := null_left.symm

theorem elements (h : IsJoin .column t u j) : IsJoin .column (.list t) (.list u) (.list j) := by
  refine ⟨.elements h.left, .elements h.right, fun ht hu => ?_⟩
  rcases ht.elements_cases with rfl | ⟨c, rfl, htc⟩
  · exact .string
  · rcases hu.elements_cases with hc | ⟨c, hc, huc⟩ <;> cases hc
    exact .elements (h.least htc huc)

theorem items (h : IsJoin .item t u j) : IsJoin .field (.list t) (.list u) (.list j) := by
  refine ⟨.items h.left, .items h.right, fun ht hu => ?_⟩
  rcases ht.items_cases with rfl | ⟨c, rfl, htc⟩
  · exact .string
  · rcases hu.items_cases with hc | ⟨c, hc, huc⟩ <;> cases hc
    exact .items (h.least htc huc)

/-- A struct whose fields are those of two structs, shared ones joined, is a join of the structs. -/
theorem struct {f : ColumnType → ColumnType → ColumnType}
    (hlast : ∀ name, last? name hs = (last? name fs).merge f (last? name gs))
    (hjoin : ∀ name t u, last? name fs = some t → last? name gs = some u →
      IsJoin .field t u (f t u)) :
    IsJoin p (.struct fs) (.struct gs) (.struct hs) := by
  constructor
  · refine Within.struct_iff.mpr fun name t ht => ?_
    rw [hlast, ht]
    cases hu : last? name gs with
    | none => exact ⟨t, Option.merge_none_right, .refl _ t⟩
    | some u => exact ⟨f t u, Option.merge_some_some, (hjoin name t u ht hu).left⟩
  · refine Within.struct_iff.mpr fun name u hu => ?_
    rw [hlast, hu]
    cases ht : last? name fs with
    | none => exact ⟨u, Option.merge_none_left, .refl _ u⟩
    | some t => exact ⟨f t u, Option.merge_some_some, (hjoin name t u ht hu).right⟩
  · intro c hf hg
    rcases hf.struct_cases with rfl | ⟨cs, rfl⟩
    · exact .string
    rw [Within.struct_iff] at hf hg ⊢
    intro name j hj
    rw [hlast, Option.merge_eq_some_iff] at hj
    rcases hj with ⟨ht, -⟩ | ⟨-, hu⟩ | ⟨t, u, ht, hu, rfl⟩
    · exact hf name j ht
    · exact hg name j hu
    · obtain ⟨c, hc, htc⟩ := hf name t ht
      obtain ⟨c', hc', huc⟩ := hg name u hu
      obtain rfl : c = c' := Option.some.inj (hc.symm.trans hc')
      exact ⟨c, hc, (hjoin name t u ht hu).least htc huc⟩

end IsJoin

/-! ## Types that fall back on a string -/

/-- Two types that the rules of a place bring together beyond agreement and `null`. -/
def Combinable (p : Place) (t u : ColumnType) : Prop :=
  (t.kind = .struct ∧ u.kind = .struct) ∨ (p ≠ .item ∧ t.kind = .list ∧ u.kind = .list) ∨
    (p = .column ∧ t.isNumeric = true ∧ u.isNumeric = true)

theorem eq_struct_of_kind {t : ColumnType} (h : t.kind = .struct) : ∃ fs, t = .struct fs := by
  cases t <;> cases h
  exact ⟨_, rfl⟩

theorem eq_list_of_kind {t : ColumnType} (h : t.kind = .list) : ∃ u, t = .list u := by
  cases t <;> cases h
  exact ⟨_, rfl⟩

theorem isNumeric_iff {t : ColumnType} :
    t.isNumeric = true ↔ t.kind = .integer ∨ t.kind = .double := by
  cases t <;> simp [isNumeric, kind]

theorem Within.combinable {p : Place} {t c : ColumnType} (h : Within p t c) (ht : t ≠ .null)
    (hc : c ≠ .string) : t.agrees c = true ∨ Combinable p t c := by
  cases h with
  | null => exact absurd rfl ht
  | string => exact absurd rfl hc
  | alike h => exact Or.inl h
  | widen | double => exact Or.inr (Or.inr (Or.inr ⟨rfl, rfl, rfl⟩))
  | elements | items => exact Or.inr (Or.inr (Or.inl ⟨by decide, rfl, rfl⟩))
  | struct => exact Or.inr (Or.inl ⟨rfl, rfl⟩)

/-- Types that neither agree nor combine have room in common in strings only. -/
theorem IsJoin.of_not_combinable {p : Place} {t u : ColumnType} (ht : t ≠ .null) (hu : u ≠ .null)
    (hagree : ¬ t.agrees u = true) (hcomb : ¬ Combinable p t u) : IsJoin p t u .string := by
  refine ⟨.string, .string, fun {c} htc huc => ?_⟩
  by_cases hc : c = .string
  · rw [hc]
    exact .string
  exfalso
  rcases htc.combinable ht hc with h | h <;> rcases huc.combinable hu hc with h' | h'
  · exact hagree (agrees_trans h (agrees_symm h'))
  · have hkind := kind_eq_of_agrees h
    simp only [Combinable, isNumeric_iff] at h' hcomb
    rw [hkind] at hcomb
    grind
  · have hkind := kind_eq_of_agrees h'
    simp only [Combinable, isNumeric_iff] at h hcomb
    rw [hkind] at hcomb
    grind
  · simp only [Combinable, isNumeric_iff] at h h' hcomb
    grind

/-! ## Numbers -/

theorem bits_max (v w : Width) : (v.max w).bits = max v.bits w.bits := by
  unfold Width.max
  split <;> omega

theorem IsJoin.integers (v w : Width) :
    IsJoin .column (.integer v) (.integer w) (.integer (v.max w)) := by
  refine ⟨.widen (by rw [bits_max]; omega), .widen (by rw [bits_max]; omega), fun hv hw => ?_⟩
  rcases hv.eq_of_integer with rfl | rfl | ⟨x, rfl, hvx⟩
  · exact .string
  · exact .double
  · rcases hw.eq_of_integer with h | h | ⟨y, h, hwx⟩ <;> cases h
    exact .widen (by rw [bits_max]; omega)

/-- Two numbers are integers, or one of them is the double that they widen to. -/
theorem widen_cases {t u : ColumnType} (ht : t.isNumeric = true) (hu : u.isNumeric = true) :
    (∃ v w, t = .integer v ∧ u = .integer w) ∨
      widen t u = .double ∧ (t = .double ∨ u = .double) := by
  cases t with
  | integer v =>
    cases u with
    | integer w => exact Or.inl ⟨v, w, rfl, rfl⟩
    | double => exact Or.inr ⟨rfl, Or.inr rfl⟩
    | _ => cases hu
  | double => exact Or.inr ⟨rfl, Or.inl rfl⟩
  | _ => cases ht

theorem within_double {t : ColumnType} (h : t.isNumeric = true) : Within .column t .double := by
  cases t with
  | integer v => exact .double
  | double => exact .refl _ _
  | _ => cases h

/-- Two numbers of a column widen to the narrowest number with room for both. -/
theorem IsJoin.numbers {t u : ColumnType} (ht : t.isNumeric = true) (hu : u.isNumeric = true) :
    IsJoin .column t u (widen t u) := by
  rcases widen_cases ht hu with ⟨v, w, rfl, rfl⟩ | ⟨hwiden, hdouble⟩
  · exact .integers v w
  rw [hwiden]
  refine ⟨within_double ht, within_double hu, fun htc huc => ?_⟩
  rcases hdouble with rfl | rfl
  · exact htc
  · exact huc

/-! ## Fields combined by name -/

theorem allDistinct_iff {fs : List (String × ColumnType)} :
    AllDistinct fs ↔ ∀ name t, (name, t) ∈ fs → t.Distinct := by
  induction fs with
  | nil => simp [AllDistinct]
  | cons f rest ih =>
    obtain ⟨n, s⟩ := f
    simp only [AllDistinct, ih, List.mem_cons, Prod.mk.injEq]
    constructor
    · rintro ⟨hs, hrest⟩ name t (⟨rfl, rfl⟩ | h)
      · exact hs
      · exact hrest name t h
    · exact fun h => ⟨h n s (Or.inl ⟨rfl, rfl⟩), fun name t ht => h name t (Or.inr ht)⟩

theorem combineFields_distinct {known : List (String × ColumnType)}
    (gs : List (String × ColumnType)) (h : Record.Distinct known) :
    Record.Distinct (combineFields known gs) := by
  induction gs generalizing known with
  | nil => rwa [combineFields]
  | cons g rest ih =>
    rw [combineFields]
    exact ih (h.put _ _)

/-- At each name the fields known and the new ones are combined; a name of one side only keeps its
field. -/
theorem get?_combineFields {known gs : List (String × ColumnType)} (hgs : Record.Distinct gs)
    (name : String) :
    get? name (combineFields known gs) = (get? name known).merge combineField (get? name gs) := by
  induction gs generalizing known with
  | nil => rw [combineFields, get?, Option.merge_none_right]
  | cons g rest ih =>
    obtain ⟨n, t⟩ := g
    obtain ⟨hnew, hrest⟩ := hgs.tail
    rw [combineFields, ih hrest, get?]
    by_cases h : n = name
    · subst h
      rw [Record.get?_put_self, Record.get?_eq_none_iff.mpr hnew, if_pos rfl]
      cases get? n known <;> rfl
    · rw [Record.get?_put_of_ne (Ne.symm h), if_neg h]

theorem last?_combineFields {fs gs : List (String × ColumnType)} (hgs : Record.Distinct gs)
    (name : String) :
    last? name (combineFields (Record.ofEntries fs) gs) =
      (last? name fs).merge combineField (last? name gs) := by
  rw [Record.last?_eq_get? (combineFields_distinct gs (Record.distinct_ofEntries fs)),
    get?_combineFields hgs, Record.get?_ofEntries, Record.last?_eq_get? hgs]

/-! ## The two joins -/

theorem Distinct.fields {fs : List (String × ColumnType)} (h : Distinct (.struct fs)) :
    Record.Distinct fs := h.1

theorem Distinct.element {t : ColumnType} (h : Distinct (.list t)) : t.Distinct := by
  rwa [Distinct] at h

theorem Distinct.field {fs : List (String × ColumnType)} {name : String} {t : ColumnType}
    (h : Distinct (.struct fs)) (ht : (name, t) ∈ fs) : t.Distinct :=
  allDistinct_iff.mp h.2 name t ht

theorem IsJoin.combineFields {p : Place} {fs gs : List (String × ColumnType)}
    (hgs : Record.Distinct gs)
    (hjoin : ∀ name t u, last? name fs = some t → last? name gs = some u →
      IsJoin .field t u (combineField t u)) :
    IsJoin p (.struct fs) (.struct gs) (combineStructs fs gs) :=
  .struct (last?_combineFields hgs) hjoin

theorem sizeOf_lt_of_mem {fs : List (String × ColumnType)} {name : String} {t : ColumnType}
    (h : (name, t) ∈ fs) : sizeOf t < sizeOf fs := by
  have hpair := List.sizeOf_lt_of_mem h
  rw [Prod.mk.sizeOf_spec] at hpair
  omega

/-- Induction along the combination of fields, into the fields of structs and of structs that are
the items of lists. Deeper lists are not entered: they agree or fall back. -/
@[elab_as_elim]
theorem fieldInduction {motive : ColumnType → Prop}
    (step : ∀ t, (∀ fs name s, t = .struct fs ∨ t = .list (.struct fs) → (name, s) ∈ fs →
      motive s) → motive t) (t : ColumnType) : motive t :=
  step t fun _ _ s _ _ => fieldInduction step s
termination_by sizeOf t
decreasing_by
  rename_i hnested hmem
  have := sizeOf_lt_of_mem hmem
  rcases hnested with rfl | rfl
  all_goals
    simp only [ColumnType.list.sizeOf_spec, ColumnType.struct.sizeOf_spec]
    omega

theorem combineField_isJoin {t u : ColumnType} (ht : t.Distinct) (hu : u.Distinct) :
    IsJoin .field t u (combineField t u) := by
  induction t using fieldInduction generalizing u with
  | step t ih =>
  unfold combineField
  split
  · exact .of_agrees ‹_›
  split
  case h_1 => exact .null_left
  case h_2 => exact .null_right
  case h_3 fs gs _ =>
    refine .combineFields hu.fields fun name s r hs hr => ?_
    have hmem := Record.mem_of_last? hs
    exact ih fs name s (Or.inl rfl) hmem (ht.field hmem) (hu.field (Record.mem_of_last? hr))
  case h_4 => exact .items .null_left
  case h_5 => exact .items .null_right
  case h_6 fs gs _ =>
    refine .items (.combineFields hu.element.fields fun name s r hs hr => ?_)
    have hmem := Record.mem_of_last? hs
    exact ih fs name s (Or.inr rfl) hmem (ht.element.field hmem)
      (hu.element.field (Record.mem_of_last? hr))
  case h_7 t u hnt hnu hstruct hagree =>
    refine .items (.of_not_combinable hnt hnu (by rwa [agrees] at hagree) ?_)
    rintro (⟨h, h'⟩ | ⟨h, -⟩ | ⟨h, -⟩)
    · obtain ⟨fs, rfl⟩ := eq_struct_of_kind h
      obtain ⟨gs, rfl⟩ := eq_struct_of_kind h'
      exact hstruct fs gs rfl rfl
    · exact h rfl
    · cases h
  case h_8 hagree _ _ hnt hnu hstruct _ _ _ hlist =>
    refine .of_not_combinable hnt hnu hagree ?_
    rintro (⟨h, h'⟩ | ⟨-, h, h'⟩ | ⟨h, -⟩)
    · obtain ⟨fs, rfl⟩ := eq_struct_of_kind h
      obtain ⟨gs, rfl⟩ := eq_struct_of_kind h'
      exact hstruct fs gs rfl rfl
    · obtain ⟨t, rfl⟩ := eq_list_of_kind h
      obtain ⟨u, rfl⟩ := eq_list_of_kind h'
      exact hlist t u rfl rfl
    · cases h

theorem unify_isJoin {t u : ColumnType} (ht : t.Distinct) (hu : u.Distinct) :
    IsJoin .column t u (unify t u) := by
  unfold unify
  split
  · exact .of_agrees ‹_›
  split
  case h_1 => exact .null_left
  case h_2 => exact .null_right
  case h_3 fs gs _ =>
    refine .combineFields hu.fields fun name s r hs hr => ?_
    exact combineField_isJoin (ht.field (Record.mem_of_last? hs))
      (hu.field (Record.mem_of_last? hr))
  case h_4 t u _ => exact .elements (unify_isJoin ht.element hu.element)
  case h_5 hagree _ _ hnt hnu hstruct hlist =>
    split
    · rename_i hnum
      rw [Bool.and_eq_true] at hnum
      exact .numbers hnum.1 hnum.2
    · rename_i hnum
      rw [Bool.and_eq_true] at hnum
      refine .of_not_combinable hnt hnu hagree ?_
      rintro (⟨h, h'⟩ | ⟨-, h, h'⟩ | ⟨-, h⟩)
      · obtain ⟨fs, rfl⟩ := eq_struct_of_kind h
        obtain ⟨gs, rfl⟩ := eq_struct_of_kind h'
        exact hstruct fs gs rfl rfl
      · obtain ⟨t, rfl⟩ := eq_list_of_kind h
        obtain ⟨u, rfl⟩ := eq_list_of_kind h'
        exact hlist t u rfl rfl
      · exact hnum h

end Columnar.ColumnType
