import Columnar.Number.Double

/-!
# Whole numbers as doubles

A quotient is rounded to `q` or below exactly up to the midpoint above `q`, which counts if `q` is
even. So a whole number of at least 53 bits becomes its leading 53 bits, rounded that way, and
stays a whole number; `leadingBits` is what becomes of it.
-/

namespace Columnar

theorem roundQuotient_le_iff {num den q : Nat} (hden : 0 < den) :
    roundQuotient num den ≤ q ↔
      2 * num < (2 * q + 1) * den ∨ 2 * num = (2 * q + 1) * den ∧ q % 2 = 0 := by
  have hdiv : den * (num / den) + num % den = num := Nat.div_add_mod num den
  have hmod : num % den < den := Nat.mod_lt num hden
  have hmid : (2 * q + 1) * den = 2 * (den * q) + den := by
    rw [Nat.add_mul, Nat.one_mul, Nat.mul_assoc, Nat.mul_comm q den]
  rw [hmid]
  unfold roundQuotient
  dsimp only
  generalize num / den = d at hdiv ⊢
  generalize num % den = r at hdiv hmod ⊢
  -- Products of `den` are atoms to `omega`; these are all it needs to know about them.
  have hbelow : d < q → den * d + den ≤ den * q := fun h => Nat.mul_le_mul_left den h
  have habove : q < d → den * q + den ≤ den * d := fun h => Nat.mul_le_mul_left den h
  have hequal : d = q → den * d = den * q := fun h => by rw [h]
  split
  · omega
  split
  · omega
  split <;> omega

theorem div_le_roundQuotient (num den : Nat) : num / den ≤ roundQuotient num den := by
  unfold roundQuotient
  dsimp only
  split
  · exact Nat.le_refl _
  split
  · exact Nat.le_succ _
  split
  · exact Nat.le_refl _
  · exact Nat.le_succ _

theorem log2Quotient_one {n : Nat} (h : n ≠ 0) : log2Quotient n 1 = Nat.log2 n := by
  have hone : Nat.log2 1 = 0 := by decide
  have hle : Nat.pow 2 (Nat.log2 n) ≤ n := Nat.log2_self_le h
  unfold log2Quotient unscale
  simp only [hone, Int.natCast_zero, Int.sub_zero, Int.natCast_nonneg, if_true, Int.toNat_natCast,
    Nat.one_mul]
  exact if_pos hle

/-- A whole number with all but its leading 53 bits rounded away. -/
def leadingBits (n : Nat) : Nat :=
  let ulp := Nat.pow 2 (Nat.log2 n - 52)
  roundQuotient n ulp * ulp

/-- A whole number of 53 bits or more has `k` bits behind its leading 53. -/
theorem exists_log2_eq {n : Nat} (hn : Nat.pow 2 52 ≤ n) :
    ∃ k, Nat.log2 n = 52 + k ∧ Nat.pow 2 52 * Nat.pow 2 k ≤ n ∧ n < Nat.pow 2 53 * Nat.pow 2 k := by
  have hpos : n ≠ 0 := Nat.ne_of_gt (Nat.lt_of_lt_of_le (by decide) hn)
  have hlog : 52 ≤ Nat.log2 n := (Nat.le_log2 hpos).mpr hn
  obtain ⟨k, hk⟩ : ∃ k, Nat.log2 n = 52 + k := ⟨_, (Nat.add_sub_cancel' hlog).symm⟩
  have hle := Nat.log2_self_le hpos
  have hlt := Nat.lt_log2_self (n := n)
  rw [hk, Nat.pow_add] at hle
  rw [hk, show 52 + k + 1 = 53 + k by omega, Nat.pow_add] at hlt
  exact ⟨k, hk, hle, hlt⟩

theorem pow_le_roundQuotient {n k : Nat} (h : Nat.pow 2 52 * Nat.pow 2 k ≤ n) :
    Nat.pow 2 52 ≤ roundQuotient n (Nat.pow 2 k) :=
  Nat.le_trans ((Nat.le_div_iff_mul_le (Nat.pow_pos (by decide))).mpr h)
    (div_le_roundQuotient _ _)

/-- Rounding keeps the leading bit in its place or moves it up. -/
theorem pow_log2_le_leadingBits {n : Nat} (hn : Nat.pow 2 52 ≤ n) :
    Nat.pow 2 (Nat.log2 n) ≤ leadingBits n := by
  obtain ⟨k, hk, hle, -⟩ := exists_log2_eq hn
  have hpow : Nat.pow 2 (52 + k) = Nat.pow 2 52 * Nat.pow 2 k := Nat.pow_add 2 52 k
  unfold leadingBits
  rw [hk, Nat.add_sub_cancel_left, hpow]
  exact Nat.mul_le_mul_right _ (pow_le_roundQuotient hle)

namespace Magnitude

/-- A mantissa with an exponent that is not negative is a whole number. -/
theorem toNat?_of_ofScaled? {m : Nat} {e : Int} {x : Magnitude} (he : 0 ≤ e)
    (h : ofScaled? m e = some x) : x.toNat? = some (m * Nat.pow 2 e.toNat) := by
  have whole (y : Magnitude) (hy : 0 ≤ y.exponent) :
      y.toNat? = some (y.mantissa * Nat.pow 2 y.exponent.toNat) := by
    simp only [toNat?, fraction, if_pos hy, Nat.mod_one, Nat.div_one, if_true]
  unfold ofScaled? at h
  by_cases hm : m = Nat.pow 2 53
  · rw [if_pos hm] at h
    obtain ⟨_, hx⟩ := Option.dite_none_right_eq_some.mp h
    obtain rfl := Option.some.inj hx
    have hsucc : (e + 1).toNat = e.toNat + 1 := by omega
    have hpow : Nat.pow 2 (e.toNat + 1) = Nat.pow 2 e.toNat * 2 := rfl
    have hcarry : Nat.pow 2 52 * Nat.pow 2 (e + 1).toNat = m * Nat.pow 2 e.toNat := by
      rw [hsucc, hpow, hm, Nat.mul_comm (Nat.pow 2 e.toNat), ← Nat.mul_assoc]
    rw [whole _ (by dsimp only; omega)]
    exact congrArg some hcarry
  · rw [if_neg hm] at h
    obtain ⟨_, hx⟩ := Option.dite_none_right_eq_some.mp h
    obtain rfl := Option.some.inj hx
    exact whole _ he

theorem exists_ofScaled? {m : Nat} {e : Int} (hlow : Nat.pow 2 52 ≤ m) (hhigh : m ≤ Nat.pow 2 53)
    (he : -1074 ≤ e) (he' : e ≤ 970) : ∃ x, ofScaled? m e = some x := by
  unfold ofScaled?
  by_cases hm : m = Nat.pow 2 53
  · rw [if_pos hm]
    exact ⟨_, dif_pos ⟨by decide, by omega, by omega, Or.inl (Nat.le_refl _)⟩⟩
  · rw [if_neg hm]
    exact ⟨_, dif_pos ⟨by omega, he, by omega, Or.inl hlow⟩⟩

/-- Of a whole number with 53 bits or more the leading ones are rounded to be the mantissa. -/
theorem ofDecimal?_whole {n : Nat} (hn : Nat.pow 2 52 ≤ n) :
    ofDecimal? n 0 =
      if 1024 ≤ Nat.log2 n then none
      else
        ofScaled? (roundQuotient n (Nat.pow 2 (Nat.log2 n - 52))) (Nat.log2 n - 52 : Nat) := by
  have hpos : 0 < n := Nat.lt_of_lt_of_le (by decide) hn
  have hlog : 52 ≤ Nat.log2 n := (Nat.le_log2 (by omega)).mpr hn
  have hscale : max (-1074) (log2Quotient n 1 - 52) = ((Nat.log2 n - 52 : Nat) : Int) := by
    rw [log2Quotient_one (by omega)]
    omega
  have hround : round? n 1 =
      ofScaled? (roundQuotient n (Nat.pow 2 (Nat.log2 n - 52))) (Nat.log2 n - 52 : Nat) := by
    simp only [round?, if_neg (show n ≠ 0 by omega), hscale, unscale, Int.natCast_nonneg, if_true,
      Int.toNat_natCast, Nat.one_mul]
  have hcond : 1024 ≤ (Nat.log2 n : Int) + 3 * 0 ↔ 1024 ≤ Nat.log2 n := by omega
  have hten : n * Nat.pow 10 (0 : Int).toNat = n := Nat.mul_one n
  rw [ofDecimal?, if_neg (show n ≠ 0 by omega), if_pos (Int.le_refl 0), hten, hround]
  simp only [hcond]

end Magnitude

namespace Double

variable {negative : Bool} {n : Nat}

/-- If a whole number with 53 bits or more becomes a whole double, it is its leading bits. -/
theorem eq_leadingBits_of_toInt? {i : Int} (hn : Nat.pow 2 52 ≤ n)
    (h : (ofDecimal negative n 0).toInt? = some i) :
    i = if negative then -(leadingBits n : Int) else leadingBits n := by
  unfold ofDecimal at h
  rw [Magnitude.ofDecimal?_whole hn] at h
  split at h
  next x hx =>
    split at hx
    · cases hx
    · have hnat := Magnitude.toNat?_of_ofScaled? (Int.natCast_nonneg _) hx
      rw [Int.toNat_natCast] at hnat
      rw [toInt?, hnat] at h
      exact (Option.some.inj h).symm
  next => cases h

/-- A whole number of 53 bits or more becomes a whole double if its size is in range. -/
theorem toInt?_ofDecimal (hn : Nat.pow 2 52 ≤ n) (hlog : Nat.log2 n ≤ 1022) :
    (ofDecimal negative n 0).toInt? =
      some (if negative then -(leadingBits n : Int) else leadingBits n) := by
  obtain ⟨k, hk, hle, hlt⟩ := exists_log2_eq hn
  have hlow : Nat.pow 2 52 ≤ roundQuotient n (Nat.pow 2 k) := pow_le_roundQuotient hle
  have hulp : 0 < Nat.pow 2 k := Nat.pow_pos (by decide)
  have hhigh : roundQuotient n (Nat.pow 2 k) ≤ Nat.pow 2 53 := by
    refine (roundQuotient_le_iff hulp).mpr (Or.inl ?_)
    rw [Nat.add_mul, Nat.mul_assoc]
    omega
  obtain ⟨x, hx⟩ := Magnitude.exists_ofScaled? hlow hhigh (e := k) (by omega) (by omega)
  have hdecimal : Magnitude.ofDecimal? n 0 = some x := by
    rw [Magnitude.ofDecimal?_whole hn, if_neg (by omega), hk, Nat.add_sub_cancel_left, hx]
  have hsome : ∃ i, (ofDecimal negative n 0).toInt? = some i := by
    rw [ofDecimal, hdecimal]
    dsimp only
    rw [toInt?, Magnitude.toNat?_of_ofScaled? (Int.natCast_nonneg _) hx]
    exact ⟨_, rfl⟩
  obtain ⟨i, hi⟩ := hsome
  rw [hi, eq_leadingBits_of_toInt? hn hi]

end Double

end Columnar
