import Columnar.Proofs.Number.Grammar
import Columnar.Proofs.Scalar.Classify

/-!
# Integers beyond 64 bits

A short integer literal that no width holds is typed by the double nearest to it, and the doubles
below -2^63 are 2048 apart. The 1024 integers next below -2^63 are nearest to -2^63 itself, which 64
bits hold: such a literal, `Overflowing`, has the type of a 64-bit integer although no width holds
what it writes. Main statement: these are the only texts typed as integers whose integer does not
fit.
-/

namespace Columnar

namespace Width

theorem exists_ofInt? {w : Width} {n : Int} (h : w.Holds n) :
    ∃ v, ofInt? n = some v ∧ v.bits ≤ w.bits := by
  cases hv : ofInt? n with
  | some v => exact ⟨v, rfl, bits_le_of_holds hv h⟩
  | none =>
    have hmem : w ∈ all := by cases w <;> decide
    have hnone := List.find?_eq_none.mp hv w hmem
    exact absurd (decide_eq_true h) hnone

/-- The integers without a width are those that 64 bits do not hold. -/
theorem ofInt?_eq_none_iff {n : Int} : ofInt? n = none ↔ ¬ w64.Holds n := by
  constructor
  · intro hnone h
    obtain ⟨v, hv, -⟩ := exists_ofInt? h
    rw [hnone] at hv
    cases hv
  · intro h
    cases hv : ofInt? n with
    | none => rfl
    | some v => exact absurd ((holds_of_ofInt? hv).of_bits_le (by cases v <;> decide)) h

end Width

/-- A whole number of 64 bits or more has leading bits that 64 bits hold only if it is negative and
next to the range. -/
theorem holds_leadingBits_iff (negative : Bool) {n : Nat} (hn : Nat.pow 2 63 ≤ n) :
    Width.w64.Holds (if negative then -(leadingBits n : Int) else leadingBits n) ↔
      negative = true ∧ n ≤ Nat.pow 2 63 + 1024 := by
  have hpow : Nat.pow 2 63 = 9223372036854775808 := rfl
  have hhalf : Width.w64.half = 9223372036854775808 := rfl
  have hlow : Nat.pow 2 52 ≤ n := Nat.le_trans (by decide) hn
  have hpos : n ≠ 0 := Nat.ne_of_gt (Nat.lt_of_lt_of_le (by decide) hn)
  have hlog : 63 ≤ Nat.log2 n := (Nat.le_log2 hpos).mpr hn
  have hkept : Nat.pow 2 (Nat.log2 n) ≤ leadingBits n := pow_log2_le_leadingBits hlow
  have hself : Nat.pow 2 (Nat.log2 n) ≤ n := Nat.log2_self_le hpos
  have hbits : Nat.pow 2 63 ≤ leadingBits n ∧
      (leadingBits n ≤ Nat.pow 2 63 ↔ n ≤ Nat.pow 2 63 + 1024) := by
    refine ⟨Nat.le_trans (Nat.pow_le_pow_right (by decide) hlog) hkept, ?_⟩
    rcases Nat.eq_or_lt_of_le hlog with hlog | hlog
    · have hulp : leadingBits n = roundQuotient n 2048 * 2048 := by
        unfold leadingBits
        rw [← hlog]
      have hround : roundQuotient n 2048 ≤ Nat.pow 2 52 ↔ _ := roundQuotient_le_iff (by decide)
      have hmant : Nat.pow 2 52 = 4503599627370496 := rfl
      rw [hmant] at hround
      omega
    · have hdouble : Nat.pow 2 64 ≤ Nat.pow 2 (Nat.log2 n) :=
        Nat.pow_le_pow_right (by decide) hlog
      have hpow' : Nat.pow 2 64 = 18446744073709551616 := rfl
      omega
  unfold Width.Holds
  rw [hhalf]
  rw [hpow] at hbits ⊢
  cases negative
  · simp only [Bool.false_eq_true, if_false, false_and, iff_false]
    omega
  · simp only [if_true, true_and]
    omega

namespace Scalar

open Text

/-! ## Integer literals are nothing else -/

theorem toLower_of_isDigit {c : Char} (h : isDigit c = true) : c.toLower = c := by
  have hrange : c.toNat ≤ '9'.toNat ∨ 128 ≤ c.toNat := by
    unfold isDigit digit? at h
    split at h
    · exact Or.inl (by omega)
    split at h
    · cases h
    · exact Or.inr (by omega)
  unfold Char.toLower
  refine dif_neg fun hupper => ?_
  have hlow : 'A'.toNat ≤ c.toNat := UInt32.le_iff_toNat_le.mp hupper.1
  have hhigh : c.toNat ≤ 'Z'.toNat := UInt32.le_iff_toNat_le.mp hupper.2
  have hnine : '9'.toNat < 'A'.toNat := by decide
  have hz : 'Z'.toNat < 128 := by decide
  omega

theorem lower_integerLiteral? {cs : List Char} {n : Int} (h : integerLiteral? cs = some n) :
    lower cs = cs := by
  have hself : ∀ c ∈ cs, c.toLower = c := by
    intro c hc
    rcases mem_integerLiteral? h hc with rfl | rfl | hd
    · decide
    · decide
    · exact toLower_of_isDigit hd
  rw [lower]
  exact (List.map_congr_left hself).trans (List.map_id cs)

/-- No keyword is an integer literal. -/
theorem keyword_integerLiteral? {cs : List Char} {n : Int} (h : integerLiteral? cs = some n) :
    isNullWord cs = false ∧ booleanWord? cs = none ∧ doubleWord? cs = none := by
  have hlower := lower_integerLiteral? h
  have hword (w : String) (hw : integerLiteral? w.toList = none) : String.ofList cs ≠ w := by
    rintro rfl
    rw [String.toList_ofList, h] at hw
    cases hw
  refine ⟨?_, ?_, ?_⟩
  · have hnull : ∀ w ∈ [[], ['~'], ['n', 'u', 'l', 'l']], integerLiteral? w = none := by decide
    have hne : ∀ w ∈ [[], ['~'], ['n', 'u', 'l', 'l']], cs ≠ w := by
      rintro w hw rfl
      rw [hnull cs hw] at h
      cases h
    unfold isNullWord
    rw [hlower]
    simpa [and_assoc] using hne
  · have htrue : ∀ w ∈ trueWords, integerLiteral? w.toList = none := by decide
    have hfalse : ∀ w ∈ falseWords, integerLiteral? w.toList = none := by decide
    unfold booleanWord?
    rw [hlower]
    dsimp only
    rw [if_neg fun hmem => hword _ (htrue _ hmem) rfl,
      if_neg fun hmem => hword _ (hfalse _ hmem) rfl]
  · have hdouble : ∀ w ∈ doubleWords, integerLiteral? w.1.toList = none := by decide
    unfold doubleWord?
    rw [hlower]
    refine List.lookup_eq_none_iff.mpr fun e he => ?_
    exact bne_iff_ne.mpr (hword _ (hdouble e he))

theorem looksTemporal_integerLiteral? {cs : List Char} {n : Int}
    (h : integerLiteral? cs = some n) : looksTemporal cs = false := by
  have hcolon : ':' ∉ cs := fun hmem => by simpa [isDigit, digit?] using mem_integerLiteral? h hmem
  have hletter : 'T' ∉ cs := fun hmem => by simpa [isDigit, digit?] using mem_integerLiteral? h hmem
  have hhyphen : '-' ∉ cs.drop 1 := by
    intro hmem
    have hdigit : isDigit '-' = true := by
      cases integerLiteral?_eq_some_iff_writes.mp h with
      | parts hss hne hds =>
        cases hss with
        | none => exact hds '-' (List.mem_of_mem_drop hmem)
        | plus => exact hds '-' hmem
        | minus => exact hds '-' hmem
    exact absurd hdigit (by decide)
  unfold looksTemporal
  rw [List.drop_one] at hhyphen ⊢
  simp [hcolon, hletter, hhyphen]

/-! ## Overflowing literals -/

/-- The text writes an integer below 64 bits that is nearest, among the doubles, to the least one
of 64 bits. -/
def Overflowing (text : String) : Prop :=
  ∃ n, exactInteger? (core text) = some n ∧
    -Width.w64.half - 1024 ≤ n ∧ n < -Width.w64.half

theorem integerLiteral?_of_exactInteger? {cs : List Char} {n : Int}
    (h : exactInteger? cs = some n) : integerLiteral? cs = some n := by
  unfold exactInteger? at h
  split at h
  · exact h
  · cases h

/-- An integer literal beyond 64 bits has a double that 64 bits hold if it is next below them. -/
theorem literalDouble?_holds_iff {cs : List Char} {n : Int} (h : integerLiteral? cs = some n)
    (hn : ¬ Width.w64.Holds n) :
    (∃ d i, literalDouble? cs = some d ∧ d.toInt? = some i ∧ Width.w64.Holds i) ↔
      -Width.w64.half - 1024 ≤ n ∧ n < -Width.w64.half := by
  -- Both readings start from the same digits `c`; only the double rounds them.
  obtain ⟨negative, c, hchars, rfl⟩ := ofChars?_of_integerLiteral? h
  have hdouble : literalDouble? cs = some (Double.ofDecimal negative c 0) := by
    rw [literalDouble?, hchars, Option.map_some]
  have hpow : Nat.pow 2 63 = 9223372036854775808 := rfl
  have hhalf : Width.w64.half = 9223372036854775808 := rfl
  have hc : Nat.pow 2 63 ≤ c := by
    rw [hpow]
    unfold Width.Holds at hn
    rw [hhalf] at hn
    unfold signed at hn
    split at hn <;> omega
  have hlow : Nat.pow 2 52 ≤ c := Nat.le_trans (by decide) hc
  have hbound := holds_leadingBits_iff negative hc
  constructor
  · rintro ⟨d, i, hd, hi, hholds⟩
    obtain rfl := Option.some.inj (hdouble.symm.trans hd)
    rw [Double.eq_leadingBits_of_toInt? hlow hi] at hholds
    obtain ⟨rfl, hle⟩ := hbound.mp hholds
    unfold Width.Holds at hn
    rw [hhalf] at hn ⊢
    rw [signed, if_pos rfl] at hn ⊢
    omega
  · rintro ⟨hge, hlt⟩
    rw [hhalf] at hge hlt
    have hnegative : negative = true := by
      cases negative
      · rw [signed, if_neg Bool.false_ne_true] at hlt
        omega
      · rfl
    rw [signed, if_pos hnegative] at hge
    have hle : c ≤ Nat.pow 2 63 + 1024 := by
      rw [hpow]
      omega
    have hlog : Nat.log2 c ≤ 1022 := by
      have hlt : c < Nat.pow 2 64 := Nat.lt_of_le_of_lt hle (by decide)
      have := (Nat.log2_lt (by omega)).mpr hlt
      omega
    exact ⟨_, _, hdouble, Double.toInt?_ofDecimal hlow hlog, hbound.mpr ⟨hnegative, hle⟩⟩

theorem Overflowing.integer? {text : String} (h : Overflowing text) :
    ∃ n, integer? text = some n ∧ ¬ Width.w64.Holds n := by
  obtain ⟨n, hn, -, hlt⟩ := h
  refine ⟨n, ?_, fun hholds => ?_⟩
  · rw [Scalar.integer?, hn]
  · exact absurd hholds.1 (by omega)

theorem Overflowing.classify {text : String} (h : Overflowing text) :
    classify text = .integer .w64 := by
  obtain ⟨n, hn, hge, hlt⟩ := h
  have hout : ¬ Width.w64.Holds n := fun hholds => absurd hholds.1 (by omega)
  have hliteral := integerLiteral?_of_exactInteger? hn
  obtain ⟨d, i, hd, hi, hholds⟩ := (literalDouble?_holds_iff hliteral hout).mpr ⟨hge, hlt⟩
  obtain ⟨hnull, hboolean, hword⟩ := keyword_integerLiteral? hliteral
  have htemporal : temporalType? (core text) = none := by
    rw [temporalType?, looksTemporal_integerLiteral? hliteral]
    rfl
  have hnone : integerType? (core text) = none := by
    rw [integerType?, hn, Option.bind_some, Width.ofInt?_eq_none_iff.mpr hout, Option.map_none]
  unfold Scalar.classify
  simp only [hnull, hboolean, htemporal, hword, hnone, hd, doubleType, hi, hholds,
    Option.isSome_none, Bool.false_eq_true, if_false, if_true]

/-- A text typed as an integer writes one of that width, unless it is overflowing. -/
theorem integer?_of_classify {text : String} {w : Width} (h : Scalar.classify text = .integer w) :
    (∃ n, Scalar.integer? text = some n ∧ w.Holds n) ∨ Overflowing text := by
  have hclassified := classified text
  rw [h] at hclassified
  cases hclassified with
  | @integer n w hn hw =>
    refine Or.inl ⟨n, ?_, Width.holds_of_ofInt? hw⟩
    rw [Scalar.integer?, hn]
  | @whole d n hint hd hn hholds =>
    cases hexact : exactInteger? (core text) with
    | none =>
      refine Or.inl ⟨n, ?_, hholds⟩
      rw [Scalar.integer?, hexact, hd]
      exact hn
    | some m =>
      rw [hexact, Option.bind_some, Width.ofInt?_eq_none_iff] at hint
      have hliteral := integerLiteral?_of_exactInteger? hexact
      exact Or.inr ⟨m, hexact, (literalDouble?_holds_iff hliteral hint).mp ⟨d, n, hd, hn, hholds⟩⟩

end Scalar

end Columnar
