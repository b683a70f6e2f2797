import Columnar.Proofs.ColumnType.Agreement

/-!
# The order of column types

`Within place t u` says that a column of type `u` has room for the values of a column of type `t`.
The order depends on the place of the type: a number may widen in a column and not in a field, the
elements of a list are compared by the column rules in a column, by stricter ones in a field, and
up to agreement alone in a list that is itself the item of a field. The order is transitive, and
two types that are within each other agree. `Within` is a specification; no unification appears in
it.
-/

namespace Columnar.ColumnType

open Record (last?)

/-- Where a type stands: a column or a list element reached through columns and lists only, a field
of a struct, or the element of a list that is a field. -/
inductive Place
  | column
  | field
  | item
deriving DecidableEq

/-- The second type has room for every value of the first. -/
inductive Within : Place → ColumnType → ColumnType → Prop
  | null {p t} : Within p .null t
  | string {p t} : Within p t .string
  | alike {p t u} : t.agrees u = true → Within p t u
  | widen {v w} : v.bits ≤ w.bits → Within .column (.integer v) (.integer w)
  | double {v} : Within .column (.integer v) .double
  | elements {t u} : Within .column t u → Within .column (.list t) (.list u)
  | items {t u} : Within .item t u → Within .field (.list t) (.list u)
  | struct {p fs gs} :
      (∀ name t, last? name fs = some t → (last? name gs).isSome) →
      (∀ name t u, last? name fs = some t → last? name gs = some u → Within .field t u) →
      Within p (.struct fs) (.struct gs)

namespace Within

variable {p : Place} {t u v : ColumnType} {fs gs : List (String × ColumnType)}

theorem refl (p : Place) (t : ColumnType) : Within p t t := .alike (agrees_refl t)

theorem eq_null (h : Within p t .null) : t = .null := by
  cases h with
  | null => rfl
  | alike h => exact ((agrees_plain rfl).mp (agrees_symm h)).symm

theorem eq_string (h : Within p .string t) : t = .string := by
  cases h with
  | string => rfl
  | alike h => exact ((agrees_plain rfl).mp h).symm

theorem eq_of_double (h : Within p .double t) : t = .string ∨ t = .double := by
  cases h with
  | string => exact Or.inl rfl
  | alike h => exact Or.inr ((agrees_plain rfl).mp h).symm

theorem eq_of_integer {v : Width} (h : Within .column (.integer v) t) :
    t = .string ∨ t = .double ∨ ∃ w, t = .integer w ∧ v.bits ≤ w.bits := by
  cases h with
  | string => exact Or.inl rfl
  | alike h => exact Or.inr (Or.inr ⟨v, ((agrees_plain rfl).mp h).symm, Nat.le_refl _⟩)
  | widen h => exact Or.inr (Or.inr ⟨_, rfl, h⟩)
  | double => exact Or.inr (Or.inl rfl)

/-- Structs are compared field by field, in every place by the rules for fields. -/
theorem struct_iff :
    Within p (.struct fs) (.struct gs) ↔
      ∀ name t, last? name fs = some t → ∃ u, last? name gs = some u ∧ Within .field t u := by
  constructor
  · intro h name t ht
    cases h with
    | alike h =>
      obtain ⟨u, hu, hagree⟩ := agrees_struct_field h ht
      exact ⟨u, hu, .alike hagree⟩
    | struct hsome hfield =>
      obtain ⟨u, hu⟩ := Option.isSome_iff_exists.mp (hsome name t ht)
      exact ⟨u, hu, hfield name t u ht hu⟩
  · intro h
    refine .struct (fun name t ht => ?_) (fun name t u ht hu => ?_)
    · obtain ⟨u, hu, -⟩ := h name t ht
      rw [hu, Option.isSome_some]
    · obtain ⟨u', hu', hfield⟩ := h name t ht
      rw [hu] at hu'
      exact Option.some.inj hu' ▸ hfield

/-- What has room for a struct is a string or a struct. -/
theorem struct_cases (h : Within p (.struct fs) t) : t = .string ∨ ∃ gs, t = .struct gs := by
  cases h with
  | string => exact Or.inl rfl
  | alike h => exact Or.inr (agrees_struct_left h)
  | struct => exact Or.inr ⟨_, rfl⟩

/-- What has room for a list in a column is a string or a list with room for its elements. -/
theorem elements_cases (h : Within .column (.list t) v) :
    v = .string ∨ ∃ u, v = .list u ∧ Within .column t u := by
  cases h with
  | string => exact Or.inl rfl
  | alike h =>
    obtain ⟨u, rfl, h⟩ := agrees_list_left h
    exact Or.inr ⟨u, rfl, .alike h⟩
  | elements h => exact Or.inr ⟨_, rfl, h⟩

/-- What has room for a list in a field is a string or a list with room for its items. -/
theorem items_cases (h : Within .field (.list t) v) :
    v = .string ∨ ∃ u, v = .list u ∧ Within .item t u := by
  cases h with
  | string => exact Or.inl rfl
  | alike h =>
    obtain ⟨u, rfl, h⟩ := agrees_list_left h
    exact Or.inr ⟨u, rfl, .alike h⟩
  | items h => exact Or.inr ⟨_, rfl, h⟩

/-- What has room for a list anywhere has room for its elements by the rules of some place. -/
theorem list_cases (h : Within p (.list t) u) :
    u = .string ∨ ∃ q v, u = .list v ∧ Within q t v := by
  cases h with
  | string => exact Or.inl rfl
  | alike h =>
    obtain ⟨v, rfl, h⟩ := agrees_list_left h
    exact Or.inr ⟨p, v, rfl, .alike h⟩
  | elements h => exact Or.inr ⟨_, _, rfl, h⟩
  | items h => exact Or.inr ⟨_, _, rfl, h⟩

/-! ## Transitivity -/

theorem of_agrees_left (h : t.agrees u = true) (h' : Within p u v) : Within p t v := by
  induction h' generalizing t with
  | null =>
    obtain rfl := (agrees_plain rfl).mp (agrees_symm h)
    exact .null
  | string => exact .string
  | alike h' => exact .alike (agrees_trans h h')
  | widen hvw =>
    obtain rfl := (agrees_plain rfl).mp (agrees_symm h)
    exact .widen hvw
  | double =>
    obtain rfl := (agrees_plain rfl).mp (agrees_symm h)
    exact .double
  | elements _ ih =>
    obtain ⟨s, rfl, hs⟩ := agrees_list_left (agrees_symm h)
    exact .elements (ih (agrees_symm hs))
  | items _ ih =>
    obtain ⟨s, rfl, hs⟩ := agrees_list_left (agrees_symm h)
    exact .items (ih (agrees_symm hs))
  | struct hsome hfield ih =>
    obtain ⟨es, rfl⟩ := agrees_struct_left (agrees_symm h)
    refine struct_iff.mpr fun name t ht => ?_
    obtain ⟨u, hu, hagree⟩ := agrees_struct_field h ht
    obtain ⟨v, hv⟩ := Option.isSome_iff_exists.mp (hsome name u hu)
    exact ⟨v, hv, ih name u v hu hv hagree⟩

theorem of_agrees_right (h : Within p t u) (h' : u.agrees v = true) : Within p t v := by
  induction h generalizing v with
  | null => exact .null
  | string =>
    obtain rfl := (agrees_plain rfl).mp h'
    exact .string
  | alike h => exact .alike (agrees_trans h h')
  | widen hvw =>
    obtain rfl := (agrees_plain rfl).mp h'
    exact .widen hvw
  | double =>
    obtain rfl := (agrees_plain rfl).mp h'
    exact .double
  | elements _ ih =>
    obtain ⟨s, rfl, hs⟩ := agrees_list_left h'
    exact .elements (ih hs)
  | items _ ih =>
    obtain ⟨s, rfl, hs⟩ := agrees_list_left h'
    exact .items (ih hs)
  | @struct p fs gs hsome hfield ih =>
    obtain ⟨hs, rfl⟩ := agrees_struct_left h'
    refine struct_iff.mpr fun name t ht => ?_
    obtain ⟨u, hu⟩ := Option.isSome_iff_exists.mp (hsome name t ht)
    obtain ⟨v, hv, hagree⟩ := agrees_struct_field h' hu
    exact ⟨v, hv, ih name t u ht hu hagree⟩

theorem trans (h : Within p t u) (h' : Within p u v) : Within p t v := by
  induction h generalizing v with
  | null => exact .null
  | string =>
    obtain rfl := eq_string h'
    exact .string
  | alike h => exact of_agrees_left h h'
  | widen hvw =>
    cases h' with
    | string => exact .string
    | alike h => exact of_agrees_right (.widen hvw) h
    | widen hwx => exact .widen (Nat.le_trans hvw hwx)
    | double => exact .double
  | double =>
    rcases eq_of_double h' with rfl | rfl
    · exact .string
    · exact .double
  | elements h ih =>
    cases h' with
    | string => exact .string
    | alike h' => exact of_agrees_right (.elements h) h'
    | elements h' => exact .elements (ih h')
  | items h ih =>
    cases h' with
    | string => exact .string
    | alike h' => exact of_agrees_right (.items h) h'
    | items h' => exact .items (ih h')
  | @struct p fs gs hsome hfield ih =>
    rcases struct_cases h' with rfl | ⟨hs, rfl⟩
    · exact .string
    · refine struct_iff.mpr fun name t ht => ?_
      obtain ⟨u, hu⟩ := Option.isSome_iff_exists.mp (hsome name t ht)
      obtain ⟨v, hv, huv⟩ := struct_iff.mp h' name u hu
      exact ⟨v, hv, ih name t u ht hu huv⟩

/-! ## Types within each other -/

theorem antisymm (h : Within p t u) (h' : Within p u t) : t.agrees u = true := by
  induction h with
  | null =>
    obtain rfl := eq_null h'
    exact agrees_refl _
  | string =>
    obtain rfl := eq_string h'
    exact agrees_refl _
  | alike h => exact h
  | @widen v w hvw =>
    cases h' with
    | alike h' => exact agrees_symm h'
    | widen hwv =>
      rw [Width.bits_injective (Nat.le_antisymm hvw hwv)]
      exact agrees_refl _
  | double => rcases eq_of_double h' with h | h <;> cases h
  | elements h ih =>
    rw [agrees]
    cases h' with
    | alike h' => exact agrees_symm (by rwa [agrees] at h')
    | elements h' => exact ih h'
  | items h ih =>
    rw [agrees]
    cases h' with
    | alike h' => exact agrees_symm (by rwa [agrees] at h')
    | items h' => exact ih h'
  | @struct p fs gs hsome hfield ih =>
    refine agrees_struct.mpr fun name => ?_
    have hback := struct_iff.mp h' name
    have hthere := hsome name
    have hall := ih name
    cases hf : last? name fs with
    | none =>
      cases hg : last? name gs with
      | none => exact .none
      | some u =>
        obtain ⟨t, ht, -⟩ := hback u hg
        rw [hf] at ht
        cases ht
    | some t =>
      obtain ⟨u, hu⟩ := Option.isSome_iff_exists.mp (hthere t hf)
      obtain ⟨t', ht', hut⟩ := hback u hu
      obtain rfl : t = t' := Option.some.inj (hf.symm.trans ht')
      rw [hu]
      exact .some (hall t u hf hu hut)

/-- Types that agree have the same types above them. -/
theorem congr (h : t.agrees u = true) : Within p t v ↔ Within p u v :=
  ⟨of_agrees_left (agrees_symm h), of_agrees_left h⟩

/-- Types with the same types above them agree. -/
theorem agrees_of_forall (p : Place) (h : ∀ v, Within p t v ↔ Within p u v) : t.agrees u = true :=
  antisymm ((h u).mpr (refl p u)) ((h t).mp (refl p t))

end Within

end Columnar.ColumnType
