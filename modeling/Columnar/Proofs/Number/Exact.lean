import Columnar.Proofs.Number.Nearest

/-!
# Whole numbers that doubles hold

A whole number is a double if at most 53 bits of it are significant and it is in range. Main
statement: where a number is rounded to a whole double, nothing is lost exactly if the number
already was whole with at most 53 significant bits.
-/

namespace Columnar

/-- The number is whole, and all but the first 53 of its bits are zero. -/
def Short (q : ℚ) : Prop := ∃ m k : Nat, m < Nat.pow 2 53 ∧ q = m * 2 ^ k

namespace Magnitude

variable {x : Magnitude}

theorem toNat?_eq_some_iff {n : Nat} : x.toNat? = some n ↔ x.value = n := by
  obtain ⟨hden, hvalue⟩ := x.fraction_spec
  have hdenq : (x.fraction.2 : ℚ) ≠ 0 := by exact_mod_cast hden.ne'
  have hwhole : x.value = n ↔ x.fraction.1 = n * x.fraction.2 := by
    rw [← hvalue, div_eq_iff hdenq]
    exact_mod_cast Iff.rfl
  rw [hwhole, toNat?]
  constructor
  · intro h
    obtain ⟨hmod, hn⟩ := Option.ite_none_right_eq_some.mp h
    rw [← Option.some.inj hn]
    exact (Nat.div_mul_cancel (Nat.dvd_of_mod_eq_zero hmod)).symm
  · intro h
    rw [h, if_pos (Nat.mul_mod_left n _), Nat.mul_div_cancel n hden]

/-- A magnitude that is a whole number is its mantissa moved up, or below 2 ^ 53 itself. -/
theorem short_of_value {n : Nat} (h : x.value = n) : Short n := by
  unfold value at h
  rcases Int.le_total 0 x.exponent with hexponent | hexponent
  · obtain ⟨k, hk⟩ := Int.eq_ofNat_of_zero_le hexponent
    rw [hk, zpow_natCast] at h
    exact ⟨x.mantissa, k, x.mantissa_lt, h.symm⟩
  · obtain ⟨k, hk⟩ := Int.eq_ofNat_of_zero_le (Int.neg_nonneg_of_nonpos hexponent)
    have hpow : (2 : ℚ) ^ k ≠ 0 := by positivity
    rw [← Int.neg_neg x.exponent, hk, zpow_neg, zpow_natCast, mul_inv_eq_iff_eq_mul₀ hpow] at h
    have hmantissa : x.mantissa = n * 2 ^ k := by exact_mod_cast h
    have hle : n ≤ x.mantissa := by
      rw [hmantissa]
      exact Nat.le_mul_of_pos_right n (Nat.two_pow_pos k)
    exact ⟨n, 0, Nat.lt_of_le_of_lt hle x.mantissa_lt, by simp⟩

/-- Moved up until its first bit is in the highest place, a mantissa has 53 bits. -/
theorem moved_up_bounds {m s : Nat} (hm : m ≠ 0) (hs : Nat.log2 m + s = 52) :
    Nat.pow 2 52 ≤ m * Nat.pow 2 s ∧ m * Nat.pow 2 s < Nat.pow 2 53 := by
  have hpow (a b : Nat) : Nat.pow 2 (a + b) = Nat.pow 2 a * Nat.pow 2 b := Nat.pow_add 2 a b
  have htop : 53 = Nat.log2 m + 1 + s := by omega
  constructor
  · calc Nat.pow 2 52 = Nat.pow 2 (Nat.log2 m) * Nat.pow 2 s := by rw [← hs, hpow]
      _ ≤ m * Nat.pow 2 s := Nat.mul_le_mul_right _ (Nat.log2_self_le hm)
  · calc m * Nat.pow 2 s < Nat.pow 2 (Nat.log2 m + 1) * Nat.pow 2 s :=
          Nat.mul_lt_mul_of_pos_right Nat.lt_log2_self (Nat.two_pow_pos s)
      _ = Nat.pow 2 53 := by rw [htop, hpow _ s]

/-- The exponent that pays for moving a mantissa up is in range if the number is. -/
theorem exponent_le_of_lt {m s k : Nat} (hlow : Nat.pow 2 52 ≤ m * Nat.pow 2 s)
    (hrange : (m : ℚ) * 2 ^ k < 2 ^ 1024) : (k : Int) - s ≤ 971 := by
  have hmantissa : (2 : ℚ) ^ 52 ≤ m * 2 ^ s := by exact_mod_cast hlow
  have hpowers : (2 : ℚ) ^ (52 + k) < 2 ^ (1024 + s) := by
    calc (2 : ℚ) ^ (52 + k) = 2 ^ 52 * 2 ^ k := pow_add 2 52 k
      _ ≤ (m : ℚ) * 2 ^ s * 2 ^ k := mul_le_mul_of_nonneg_right hmantissa (by positivity)
      _ = (m : ℚ) * 2 ^ k * 2 ^ s := mul_right_comm _ _ _
      _ < 2 ^ 1024 * 2 ^ s := mul_lt_mul_of_pos_right hrange (by positivity)
      _ = 2 ^ (1024 + s) := (pow_add 2 1024 s).symm
  have hexponents := (pow_lt_pow_iff_right₀ one_lt_two).mp hpowers
  omega

/-- A positive number of 53 significant bits is a magnitude if it is in range. -/
theorem exists_value_eq {m k : Nat} (hm : m ≠ 0) (hlt : m < Nat.pow 2 53)
    (hrange : (m : ℚ) * 2 ^ k < 2 ^ 1024) :
    ∃ x : Magnitude, x.mantissa ≠ 0 ∧ x.value = m * 2 ^ k := by
  have hlog : Nat.log2 m ≤ 52 := Nat.le_of_lt_succ ((Nat.log2_lt hm).mpr hlt)
  obtain ⟨s, hs⟩ : ∃ s, Nat.log2 m + s = 52 := ⟨52 - Nat.log2 m, by omega⟩
  obtain ⟨hlow, hhigh⟩ := moved_up_bounds hm hs
  have hexponent := exponent_le_of_lt hlow hrange
  refine ⟨⟨m * Nat.pow 2 s, k - s, hhigh, by omega, hexponent, Or.inl hlow⟩, ?_, ?_⟩
  · exact Nat.mul_ne_zero hm (Nat.two_pow_pos s).ne'
  · have hpow : (2 : ℚ) ^ s ≠ 0 := by positivity
    unfold value
    dsimp only
    rw [Nat.pow_eq, zpow_sub₀ two_ne_zero, zpow_natCast, zpow_natCast]
    push_cast
    field_simp

theorem ofDecimal?_of_large {c : Nat} {e : Int} (h : (2 : ℚ) ^ 1024 ≤ c * 10 ^ e) :
    ofDecimal? c e = none := by
  obtain ⟨num, den, hden, hnumber⟩ := exists_fraction_eq c e
  rw [ofDecimal?_eq_round? hden hnumber]
  apply round?_of_large hden
  rw [← hnumber]
  exact_mod_cast h

/-- **A number that is rounded to a whole double is that double exactly if it is short.** -/
theorem value_eq_iff_short {c n : Nat} {e : Int} (hround : ofDecimal? c e = some x)
    (hwhole : x.toNat? = some n) : (n : ℚ) = c * 10 ^ e ↔ Short (c * 10 ^ e) := by
  have hvalue := toNat?_eq_some_iff.mp hwhole
  constructor
  · intro h
    rw [← h]
    exact short_of_value hvalue
  · rintro ⟨m, k, hlt, hshort⟩
    have hrange : (m : ℚ) * 2 ^ k < 2 ^ 1024 := by
      rw [← hshort]
      by_contra hlarge
      rw [ofDecimal?_of_large (not_lt.mp hlarge)] at hround
      cases hround
    by_cases hm : m = 0
    · have hzero : (c : ℚ) * 10 ^ e = 0 := by rw [hshort, hm, Nat.cast_zero, zero_mul]
      have hten : (10 : ℚ) ^ e ≠ 0 := by positivity
      have hc : (c : ℚ) = 0 := (mul_eq_zero.mp hzero).resolve_right hten
      obtain rfl : c = 0 := by exact_mod_cast hc
      cases hround
      rw [hzero, ← hvalue, value]
      exact zero_mul _
    · obtain ⟨y, hy, hyvalue⟩ := exists_value_eq hm hlt hrange
      rw [ofDecimal?_of_value hy (hshort.trans hyvalue.symm)] at hround
      cases hround
      rw [← hvalue, hyvalue, hshort]

end Magnitude

end Columnar
