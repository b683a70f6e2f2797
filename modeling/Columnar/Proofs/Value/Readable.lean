import Columnar.Proofs.ColumnType.Within
import Columnar.Proofs.Scalar.Overflow
import Columnar.Value

/-!
# Texts as values of a type

A text is readable at a type if it does not become a null of that type. What is readable at a type
is readable at every type with room for it, and every text is readable at its own type, save the
texts for no value at all and the overflowing integers.
-/

namespace Columnar.Value

open ColumnType (Within Place)
open Scalar (classify Overflowing)

section

variable {α : Type} {t : ColumnType} {make : α → Value}

theorem type_ofRead (hmake : ∀ a, (make a).type = t) (read : Option α) :
    (ofRead t make read).type = t := by
  cases read with
  | none => rfl
  | some a => exact hmake a

theorem isNull_ofRead (hmake : ∀ a, (make a).isNull = false) (read : Option α) :
    (ofRead t make read).isNull = !read.isSome := by
  cases read with
  | none => rfl
  | some a => exact hmake a

end

theorem type_ofScalar (t : ColumnType) (node : Tree) : (ofScalar t node).type = t := by
  unfold ofScalar
  split
  case h_1 | h_2 | h_9 => rfl
  all_goals
    apply type_ofRead
    intro a
    rfl

/-- A value belongs to the type it is read as. -/
theorem type_ofTree (t : ColumnType) (node : Option Tree) : (ofTree t node).type = t := by
  unfold ofTree
  split
  case h_8 => exact type_ofScalar _ _
  all_goals rfl

/-- Does the text become a value of the type, and no null? -/
def readable : ColumnType → String → Bool
  | .string, _ | .any, _ => true
  | .boolean, text => (Scalar.boolean? text).isSome
  | .integer w, text => (integerWithin? w text).isSome
  | .double, text => (Scalar.double? text).isSome
  | .date, text => (Scalar.date? text).isSome
  | .time, text => (Scalar.time? text).isSome
  | .timestamp, text => (Scalar.timestamp? text).isSome
  | .null, _ | .list _, _ | .struct _, _ => false

theorem isNull_ofTree_scalar (t : ColumnType) (text : String) :
    (ofTree t (some (.scalar text))).isNull = !readable t text := by
  cases t with
  | null | string | any | list | struct => rfl
  | boolean | integer | double | date | time | timestamp =>
    simp only [ofTree, ofScalar, readable]
    apply isNull_ofRead
    intro a
    rfl

theorem not_readable_of_isNested {t : ColumnType} {text : String} (h : t.isNested = true) :
    readable t text = false := by
  cases t with
  | list | struct => rfl
  | _ => cases h

theorem integerWithin?_eq_some_iff {w : Width} {text : String} {n : Int} :
    integerWithin? w text = some n ↔ Scalar.integer? text = some n ∧ w.Holds n := by
  rw [integerWithin?, Option.bind_eq_some_iff]
  constructor
  · rintro ⟨m, hm, hfits⟩
    cases hv : Width.ofInt? m with
    | none =>
      rw [hv] at hfits
      cases hfits
    | some v =>
      rw [hv] at hfits
      dsimp only at hfits
      split at hfits
      · obtain rfl := Option.some.inj hfits
        exact ⟨hm, (Width.holds_of_ofInt? hv).of_bits_le ‹_›⟩
      · cases hfits
  · rintro ⟨hn, hholds⟩
    obtain ⟨v, hv, hle⟩ := Width.exists_ofInt? hholds
    refine ⟨n, hn, ?_⟩
    rw [hv]
    exact if_pos hle

theorem readable_integer_iff {w : Width} {text : String} :
    readable (.integer w) text = true ↔ ∃ n, Scalar.integer? text = some n ∧ w.Holds n := by
  rw [readable, Option.isSome_iff_exists]
  exact exists_congr fun n => integerWithin?_eq_some_iff

theorem readable_double_of_integer? {text : String} {n : Int} (h : Scalar.integer? text = some n) :
    readable .double text = true := by
  have hliteral : (Scalar.literalDouble? (Scalar.core text)).isSome = true := by
    unfold Scalar.integer? at h
    split at h
    next hexact =>
      have hint := Scalar.integerLiteral?_of_exactInteger? hexact
      obtain ⟨negative, c, hchars, -⟩ := Scalar.ofChars?_of_integerLiteral? hint
      rw [Scalar.literalDouble?, hchars]
      rfl
    next =>
      obtain ⟨d, hd, -⟩ := Option.bind_eq_some_iff.mp h
      rw [hd]
      rfl
  rw [readable, Scalar.double?]
  split
  · rfl
  · exact hliteral

/-- What is readable at a type is readable at every type with room for its values. -/
theorem readable_within {p : Place} {t u : ColumnType} {text : String} (h : Within p t u)
    (hread : readable t text = true) : readable u text = true := by
  cases h with
  | null | elements | items | struct => cases hread
  | string => rfl
  | alike hagree =>
    cases ht : t.isNested with
    | false =>
      obtain rfl := (ColumnType.agrees_plain ht).mp hagree
      exact hread
    | true =>
      rw [not_readable_of_isNested ht] at hread
      cases hread
  | widen hle =>
    obtain ⟨n, hn, hholds⟩ := readable_integer_iff.mp hread
    exact readable_integer_iff.mpr ⟨n, hn, hholds.of_bits_le hle⟩
  | double =>
    obtain ⟨n, hn, -⟩ := readable_integer_iff.mp hread
    exact readable_double_of_integer? hn

/-- A text is readable at its own type unless it stands for no value or overflows. -/
theorem readable_classify (text : String) :
    readable (classify text) text = true ∨ classify text = .null ∨ Overflowing text := by
  have hclassified := Scalar.classified text
  have hinteger (w : Width) (h : classify text = .integer w) :
      readable (classify text) text = true ∨ Overflowing text := by
    rw [h]
    exact (Scalar.integer?_of_classify h).imp_left readable_integer_iff.mpr
  generalize classify text = t at hclassified hinteger ⊢
  cases hclassified with
  | null => exact Or.inr (Or.inl rfl)
  | string => exact Or.inl rfl
  | integer | whole => exact (hinteger _ rfl).imp_right Or.inr
  | boolean h | date h | timestamp h | time h => exact Or.inl (Option.isSome_of_eq_some h)
  | word h =>
    refine Or.inl ?_
    rw [readable, Scalar.double?, h]
    rfl
  | double h =>
    refine Or.inl ?_
    rw [readable, Scalar.double?]
    split
    · rfl
    · exact Option.isSome_of_eq_some h

/-- An overflowing text is a null of every width. -/
theorem not_readable_of_overflowing {text : String} (h : Overflowing text) (w : Width) :
    readable (.integer w) text = false := by
  refine Bool.eq_false_iff.mpr fun hread => ?_
  obtain ⟨n, hn, hholds⟩ := readable_integer_iff.mp hread
  obtain ⟨m, hm, hout⟩ := h.integer?
  obtain rfl := Option.some.inj (hn.symm.trans hm)
  exact hout (hholds.of_bits_le (by cases w <;> decide))

end Columnar.Value
