import Columnar.Proofs.Number.Exact
import Columnar.Proofs.Number.Grammar
import Columnar.Scalar.Classify

/-!
# Integers that are read exactly

A short integer literal is read as the integer that it writes. Every other literal is rounded to a
double first, and the double is asked whether it is whole, so an integer may come back that the text
does not write. Main statement: this happens exactly to the numbers that are no short whole numbers.
-/

namespace Columnar.Scalar

open Text

theorem exactInteger?_eq_some_iff {cs : List Char} {n : Int} :
    exactInteger? cs = some n ↔ cs.length ≤ integerLengthLimit ∧ WritesInteger cs n := by
  rw [exactInteger?, Option.ite_none_right_eq_some, integerLiteral?_eq_some_iff_writes]

/-- An integer literal writes a number, and that is the integer. -/
theorem WritesInteger.writesNumber {cs : List Char} {n : Int} (h : WritesInteger cs n) :
    WritesNumber cs n := by
  cases h with
  | @parts ss sign ds hss hne hds =>
    have hnumber := WritesNumber.parts hss (.whole hne hds) .none
    simpa using hnumber

/-- A text writes one number at most. -/
theorem WritesNumber.unique {cs : List Char} {p q : ℚ} (hp : WritesNumber cs p)
    (hq : WritesNumber cs q) : p = q := by
  obtain ⟨l, hl, rfl⟩ := writesNumber_iff.mp hp
  obtain ⟨l', hl', rfl⟩ := writesNumber_iff.mp hq
  rw [Option.some.inj (hl.symm.trans hl')]

/-- What is read through a double is the whole double nearest to the literal. -/
theorem exists_literal_of_toInt? {cs : List Char} {n : Int}
    (h : (literalDouble? cs).bind Double.toInt? = some n) :
    ∃ (l : Literal) (m : Magnitude) (k : Nat), Literal.ofChars? cs = some l ∧
      Magnitude.ofDecimal? l.coefficient l.exponent = some m ∧ m.toNat? = some k ∧
      n = signed l.negative k := by
  obtain ⟨d, hd, hint⟩ := Option.bind_eq_some_iff.mp h
  obtain ⟨l, hl, rfl⟩ := Option.map_eq_some_iff.mp hd
  unfold Double.ofDecimal at hint
  cases hm : Magnitude.ofDecimal? l.coefficient l.exponent with
  | none =>
    rw [hm] at hint
    cases hint
  | some m =>
    rw [hm] at hint
    dsimp only [Double.toInt?] at hint
    cases hk : m.toNat? with
    | none =>
      rw [hk] at hint
      cases hint
    | some k =>
      rw [hk] at hint
      cases hint
      exact ⟨l, m, k, hl, hm, hk, rfl⟩

/-- The sign of a number is neither lost nor made by rounding. -/
theorem cast_signed_eq_value_iff (l : Literal) (k : Nat) :
    (signed l.negative k : ℚ) = l.value ↔ (k : ℚ) = l.coefficient * (10 : ℚ) ^ l.exponent := by
  unfold Literal.value
  cases l.negative <;> simp [signed]

theorem Literal.abs_value (l : Literal) :
    |l.value| = l.coefficient * (10 : ℚ) ^ l.exponent := by
  have hpos : (0 : ℚ) ≤ l.coefficient * (10 : ℚ) ^ l.exponent := by positivity
  unfold Literal.value
  cases l.negative
  · exact abs_of_nonneg hpos
  · rw [signed, if_pos rfl, Int.cast_neg, neg_mul, abs_neg]
    exact abs_of_nonneg hpos

/-- **An integer is read exactly or rounded to 53 bits.** A text that is read as an integer writes a
number. The integer is that number exactly if the text is a short integer literal, or if the number
is whole and has at most 53 significant bits, whatever its sign and however it is written. -/
theorem integers_are_exact_iff {text : String} {n : Int} (h : integer? text = some n) :
    (∃ q, WritesNumber (core text) q) ∧
    ∀ q, WritesNumber (core text) q →
      ((n : ℚ) = q ↔
        ((core text).length ≤ integerLengthLimit ∧ ∃ i, WritesInteger (core text) i) ∨
          Short |q|) := by
  unfold integer? at h
  split at h
  next i hexact =>
    cases h
    obtain ⟨hlength, hwrites⟩ := exactInteger?_eq_some_iff.mp hexact
    refine ⟨⟨n, hwrites.writesNumber⟩, fun q hq => ?_⟩
    constructor
    · intro _
      exact Or.inl ⟨hlength, n, hwrites⟩
    · intro _
      exact hwrites.writesNumber.unique hq
  next hlong =>
    obtain ⟨l, m, k, hl, hround, hwhole, rfl⟩ := exists_literal_of_toInt? h
    have hwritten := writesNumber_of_ofChars? hl
    refine ⟨⟨l.value, hwritten⟩, fun q hq => ?_⟩
    obtain rfl := hwritten.unique hq
    rw [cast_signed_eq_value_iff, Magnitude.value_eq_iff_short hround hwhole, l.abs_value]
    constructor
    · intro hshort
      exact Or.inr hshort
    · rintro (⟨hlength, i, hwrites⟩ | hshort)
      · rw [exactInteger?_eq_some_iff.mpr ⟨hlength, hwrites⟩] at hlong
        cases hlong
      · exact hshort

/-- A padded number that is twice a number of 53 bits is not altered. -/
theorem padded_even_number_is_exact :
    integer? "000000000009007199254740994" = some 9007199254740994 ∧
      WritesNumber (core "000000000009007199254740994") 9007199254740994 := by
  have hread : integer? "000000000009007199254740994" = some 9007199254740994 := by
    decide +kernel
  have hliteral : Literal.ofChars? (core "000000000009007199254740994") =
      some ⟨false, 9007199254740994, 0⟩ := by
    decide +kernel
  have hwritten := writesNumber_of_ofChars? hliteral
  have hexact := (integers_are_exact_iff hread).2 _ hwritten
  have hshort : Short |Literal.value ⟨false, 9007199254740994, 0⟩| := by
    refine ⟨4503599627370497, 1, by decide, ?_⟩
    rw [Literal.abs_value]
    norm_num
  rw [← hexact.mpr (Or.inr hshort)] at hwritten
  exact ⟨hread, hwritten⟩

/-- The odd number before it is altered. -/
theorem padded_odd_number_is_altered :
    ¬ ∀ text n, integer? text = some n → WritesNumber (core text) n := by
  intro hall
  have hread : integer? "000000000009007199254740993" = some 9007199254740992 := by
    decide +kernel
  have hliteral : Literal.ofChars? (core "000000000009007199254740993") =
      some ⟨false, 9007199254740993, 0⟩ := by
    decide +kernel
  obtain ⟨l, hl, hvalue⟩ := writesNumber_iff.mp (hall _ _ hread)
  obtain rfl := Option.some.inj (hl.symm.trans hliteral)
  rw [Literal.value] at hvalue
  norm_num [signed] at hvalue

end Columnar.Scalar
