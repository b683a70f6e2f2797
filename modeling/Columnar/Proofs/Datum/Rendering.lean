import Columnar.Datum
import Columnar.Proofs.Canonical.Scalar

/-!
# Scalars rendered and read back

A scalar among decoded data becomes the text of a scalar in a document: digits for a number, the
notation with hyphens and colons for a date or a time, a word for a truth value or a double that no
digits write. Main statement: the reader of its kind makes the same scalar of that text, and the text
has the type of that kind.
-/

namespace Columnar.Datum

open Scalar

/-- An integer of 64 bits is rendered with the type of the smallest width that holds it. -/
theorem classify_rendered_integer {n : Int} (h : Width.w64.Holds n) :
    ∃ w, classify (String.ofList (integerText n)) = .integer w ∧ w.Holds n ∧
      ∀ v : Width, v.Holds n → w.bits ≤ v.bits := by
  obtain ⟨w, hw, -⟩ := Width.exists_ofInt? h
  refine ⟨w, classify_integerText hw, Width.holds_of_ofInt? hw, ?_⟩
  intro v hv
  exact Width.bits_le_of_holds hw hv

/-- A double is read back, by its digits or by the word for it. -/
theorem double?_rendered (d : Double) : double? (String.ofList d.text) = some d := by
  cases d with
  | nan => rfl
  | infinite negative => cases negative <;> rfl
  | finite negative m => exact (double_written negative m).2

/-- **Scalars survive as text.** A truth value, an integer of 64 bits, a double, a date, a time of
day and a timestamp that are not bound to a zone become scalars of a document from whose text the
reader of their kind reads the same value again, and which have the type of that kind: an integer
that of the smallest width that holds it. Doubles are read back with the sign of a zero, infinite or
no number at all. -/
theorem scalars_survive_as_text :
    (∀ b, ∃ text, toTree (.boolean b) = .ok (.scalar text) ∧ classify text = .boolean ∧
      boolean? text = some b) ∧
    (∀ n, Width.w64.Holds n → ∃ text w, toTree (.integer n) = .ok (.scalar text) ∧
      classify text = .integer w ∧ (w.Holds n ∧ ∀ v : Width, v.Holds n → w.bits ≤ v.bits) ∧
      integer? text = some n) ∧
    (∀ d, ∃ text, toTree (.double d) = .ok (.scalar text) ∧ double? text = some d) ∧
    (∀ d, ∃ text, toTree (.date d) = .ok (.scalar text) ∧ classify text = .date ∧
      date? text = some d) ∧
    (∀ t, ∃ text, toTree (.time t none) = .ok (.scalar text) ∧ classify text = .time ∧
      time? text = some t) ∧
    ∀ t, ∃ text, toTree (.timestamp t none) = .ok (.scalar text) ∧ classify text = .timestamp ∧
      timestamp? text = some t := by
  refine ⟨?_, ?_, ?_, ?_, ?_, ?_⟩
  · intro b
    refine ⟨if b then "true" else "false", by rw [toTree], ?_⟩
    cases b <;> exact ⟨rfl, rfl⟩
  · intro n h
    obtain ⟨w, hclassify, hsmallest⟩ := classify_rendered_integer h
    exact ⟨_, w, by rw [toTree], hclassify, hsmallest, (integer_written (.of_holds h)).2⟩
  · intro d
    exact ⟨_, by rw [toTree], double?_rendered d⟩
  · intro d
    exact ⟨_, by rw [toTree], date_written d⟩
  · intro t
    refine ⟨_, by rw [toTree], ?_⟩
    rw [Option.elim_none, List.append_nil]
    exact time_written t
  · intro t
    refine ⟨_, by rw [toTree], ?_⟩
    rw [Option.elim_none, List.append_nil]
    exact timestamp_written t

/-- The least integer of 64 bits, which is written with as many characters as a short literal may
have. -/
theorem least_integer_survives_as_text :
    Width.w64.Holds (-9223372036854775808) ∧
      ∃ text w, toTree (.integer (-9223372036854775808)) = .ok (.scalar text) ∧
        classify text = .integer w ∧
        (w.Holds (-9223372036854775808) ∧
          ∀ v : Width, v.Holds (-9223372036854775808) → w.bits ≤ v.bits) ∧
        integer? text = some (-9223372036854775808) := by
  have h : Width.w64.Holds (-9223372036854775808) := by decide
  exact ⟨h, scalars_survive_as_text.2.1 _ h⟩

end Columnar.Datum
