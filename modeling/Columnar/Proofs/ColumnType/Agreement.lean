import Columnar.ColumnType
import Columnar.Proofs.Record.Lookup

/-!
# Agreement of column types

Two structs agree when at every name both have no field, or both have fields that agree. Of fields
with one name the last counts, so the statements here also hold of types that name a field twice.
Agreement is an equivalence on all types, and only structs can agree without being alike.
-/

namespace Columnar.ColumnType

open Record (last?)

mutual

/-- Induction over the nesting of a type; all types without parts are one case. -/
@[elab_as_elim]
theorem nestedInduction {motive : ColumnType → Prop}
    (plain : ∀ t, t.isNested = false → motive t) (list : ∀ t, motive t → motive (.list t))
    (struct : ∀ fs, (∀ name t, (name, t) ∈ fs → motive t) → motive (.struct fs)) :
    ∀ t, motive t
  | .list t => list t (nestedInduction plain list struct t)
  | .struct fs => struct fs (nestedInduction_fields plain list struct fs)
  | .null | .boolean | .integer _ | .double | .date | .time | .timestamp | .string | .any =>
    plain _ rfl

theorem nestedInduction_fields {motive : ColumnType → Prop}
    (plain : ∀ t, t.isNested = false → motive t) (list : ∀ t, motive t → motive (.list t))
    (struct : ∀ fs, (∀ name t, (name, t) ∈ fs → motive t) → motive (.struct fs)) :
    ∀ (fs : List (String × ColumnType)) (name : String) (t : ColumnType),
      (name, t) ∈ fs → motive t
  | [], _, _, h => by cases h
  | (n, s) :: rest, name, t, h => by
    have hs := nestedInduction plain list struct s
    rcases List.mem_cons.mp h with h | h
    · obtain ⟨-, rfl⟩ : name = n ∧ t = s := by simpa using h
      exact hs
    · exact nestedInduction_fields plain list struct rest name t h

end

/-! ## Agreement by name -/

theorem agreesAt_iff {fs gs : List (String × ColumnType)} :
    agreesAt fs gs = true ↔
      ∀ name t, last? name fs = some t → ∃ u, last? name gs = some u ∧ t.agrees u = true := by
  induction fs with
  | nil => simp [agreesAt]
  | cons f rest ih =>
    obtain ⟨n, t⟩ := f
    simp only [agreesAt, Bool.and_eq_true, Bool.or_eq_true, List.contains_iff_mem, ih]
    constructor
    · rintro ⟨hhead, htail⟩ name u hu
      rw [Record.last?_cons, Option.or_eq_some_iff] at hu
      rcases hu with hu | ⟨hnone, hu⟩
      · exact htail name u hu
      · obtain ⟨rfl, rfl⟩ : n = name ∧ t = u := by simpa using hu
        rcases hhead with hmem | hagree
        · exact absurd hmem (Record.last?_eq_none_iff.mp hnone)
        · cases hg : Record.get? n gs.reverse with
          | none => simp [hg] at hagree
          | some u => exact ⟨u, hg, by simpa [hg] using hagree⟩
    · intro h
      refine ⟨?_, fun name u hu => h name u (by rw [Record.last?_cons, hu, Option.some_or])⟩
      by_cases hmem : n ∈ Record.names rest
      · exact Or.inl hmem
      · have hlast : last? n ((n, t) :: rest) = some t := by
          rw [Record.last?_cons, Record.last?_eq_none_iff.mpr hmem]
          simp
        obtain ⟨u, hu, hagree⟩ := h n t hlast
        refine Or.inr ?_
        rw [show Record.get? n gs.reverse = some u from hu]
        exact hagree

/-- Structs agree exactly if at every name both have no field or both have fields that agree. -/
theorem agrees_struct {fs gs : List (String × ColumnType)} :
    agrees (.struct fs) (.struct gs) = true ↔
      ∀ name, Option.Rel (fun t u => t.agrees u = true) (last? name fs) (last? name gs) := by
  rw [agrees, Bool.and_eq_true, agreesAt_iff, List.all_eq_true]
  simp only [List.contains_iff_mem]
  constructor
  · rintro ⟨hat, hall⟩ name
    cases hf : last? name fs with
    | some t =>
      obtain ⟨u, hu, hagree⟩ := hat name t hf
      rw [hu]
      exact .some hagree
    | none =>
      cases hg : last? name gs with
      | none => exact .none
      | some u =>
        have hmem := hall _ (Record.mem_of_last? hg)
        exact absurd hmem (Record.last?_eq_none_iff.mp hf)
  · intro h
    refine ⟨fun name t ht => ?_, fun g hg => ?_⟩
    · have hrel := h name
      rw [ht] at hrel
      cases hu : last? name gs with
      | none => rw [hu] at hrel; cases hrel
      | some u =>
        rw [hu] at hrel
        cases hrel with
        | some hagree => exact ⟨u, rfl, hagree⟩
    · have hrel := h g.1
      cases hf : last? g.1 fs with
      | some t => exact List.mem_map.mpr ⟨_, Record.mem_of_last? hf, rfl⟩
      | none =>
        rw [hf] at hrel
        cases hu : last? g.1 gs with
        | none => exact absurd (List.mem_map.mpr ⟨g, hg, rfl⟩) (Record.last?_eq_none_iff.mp hu)
        | some u => rw [hu] at hrel; cases hrel

/-- A field of a struct agrees with the field of that name in every struct it agrees with. -/
theorem agrees_struct_field {fs gs : List (String × ColumnType)} {name : String} {t : ColumnType}
    (h : (ColumnType.struct fs).agrees (.struct gs) = true) (ht : last? name fs = some t) :
    ∃ u, last? name gs = some u ∧ t.agrees u = true := by
  rw [agrees, Bool.and_eq_true] at h
  exact agreesAt_iff.mp h.1 name t ht

theorem agrees_plain {t u : ColumnType} (ht : t.isNested = false) :
    t.agrees u = true ↔ t = u := by
  cases t <;> cases u <;> simp_all [agrees, isNested]

/-- What agrees with a list is a list. -/
theorem agrees_list_left {t c : ColumnType} (h : (ColumnType.list t).agrees c = true) :
    ∃ u, c = .list u ∧ t.agrees u = true := by
  cases c <;> simp_all [agrees]

/-- What agrees with a struct is a struct. -/
theorem agrees_struct_left {fs : List (String × ColumnType)} {c : ColumnType}
    (h : (ColumnType.struct fs).agrees c = true) : ∃ gs, c = .struct gs := by
  cases c <;> simp_all [agrees]

/-! ## Agreement is an equivalence -/

section Fields

variable {R : ColumnType → ColumnType → Prop} {s t u : Option ColumnType}

theorem rel_symm (hR : ∀ a, s = some a → ∀ b, R a b → R b a) (h : Option.Rel R s t) :
    Option.Rel R t s := by
  cases h with
  | none => exact .none
  | some h => exact .some (hR _ rfl _ h)

theorem rel_trans (hR : ∀ a, s = some a → ∀ b c, R a b → R b c → R a c)
    (h : Option.Rel R s t) (h' : Option.Rel R t u) : Option.Rel R s u := by
  cases h with
  | none =>
    cases h'
    exact .none
  | some h =>
    cases h' with
    | some h' => exact .some (hR _ rfl _ _ h h')

end Fields

theorem agrees_refl (t : ColumnType) : t.agrees t = true := by
  induction t using nestedInduction with
  | plain t ht => exact (agrees_plain ht).mpr rfl
  | list t ih => rwa [agrees]
  | struct fs ih =>
    refine agrees_struct.mpr fun name => ?_
    cases hf : last? name fs with
    | none => exact .none
    | some t => exact .some (ih name t (Record.mem_of_last? hf))

theorem agrees_symm {t u : ColumnType} (h : t.agrees u = true) : u.agrees t = true := by
  induction t using nestedInduction generalizing u with
  | plain t ht =>
    obtain rfl := (agrees_plain ht).mp h
    exact h
  | list t ih =>
    obtain ⟨u, rfl, h⟩ := agrees_list_left h
    rw [agrees]
    exact ih h
  | struct fs ih =>
    obtain ⟨gs, rfl⟩ := agrees_struct_left h
    refine agrees_struct.mpr fun name => ?_
    exact rel_symm (fun s hs u => ih name s (Record.mem_of_last? hs)) (agrees_struct.mp h name)

theorem agrees_trans {t u v : ColumnType} (h : t.agrees u = true) (h' : u.agrees v = true) :
    t.agrees v = true := by
  induction t using nestedInduction generalizing u v with
  | plain t ht =>
    obtain rfl := (agrees_plain ht).mp h
    exact h'
  | list t ih =>
    obtain ⟨u, rfl, h⟩ := agrees_list_left h
    obtain ⟨v, rfl, h'⟩ := agrees_list_left h'
    rw [agrees]
    exact ih h h'
  | struct fs ih =>
    obtain ⟨gs, rfl⟩ := agrees_struct_left h
    obtain ⟨hs, rfl⟩ := agrees_struct_left h'
    refine agrees_struct.mpr fun name => ?_
    exact rel_trans (fun s hs u v => ih name s (Record.mem_of_last? hs))
      (agrees_struct.mp h name) (agrees_struct.mp h' name)

theorem agrees_equivalence : Equivalence fun t u : ColumnType => t.agrees u = true :=
  ⟨agrees_refl, agrees_symm, agrees_trans⟩

theorem kind_eq_of_agrees {t u : ColumnType} (h : t.agrees u = true) : t.kind = u.kind := by
  cases t <;> cases u <;> simp_all [agrees, kind]

end Columnar.ColumnType
