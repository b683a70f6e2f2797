import Columnar.Number.Shortest
import Columnar.Proofs.Number.Rounding
import Mathlib.Algebra.Order.Field.Power
import Mathlib.Data.Int.Log
import Mathlib.Data.Rat.Floor
import Mathlib.Tactic.FieldSimp
import Mathlib.Tactic.NormNum
import Mathlib.Tactic.Positivity

/-!
# The double nearest to a number

Rounding depends on the rational number alone and not on the fraction or the decimal that writes
it: the binary logarithm, the quotient and the shortcuts for large and small powers of ten are read
off the number. A magnitude is nearest to itself. Main statement: the shortest digits of a
magnitude read back as that magnitude, however the decimal is spelled.
-/

namespace Columnar

/-! ## Fractions -/

theorem unscale_spec {base den : Nat} (num : Nat) (hbase : 0 < base) (hden : 0 < den) (e : Int) :
    0 < (unscale base num den e).2 ∧
      ((unscale base num den e).1 : ℚ) / (unscale base num den e).2 =
        (num : ℚ) / den / (base : ℚ) ^ e := by
  have hq : (base : ℚ) ≠ 0 := by exact_mod_cast hbase.ne'
  have hpow (k : Nat) : 0 < base.pow k := Nat.pow_pos hbase
  unfold unscale
  split
  · obtain ⟨k, rfl⟩ := Int.eq_ofNat_of_zero_le ‹0 ≤ e›
    refine ⟨Nat.mul_pos hden (hpow _), ?_⟩
    simp only [Int.toNat_natCast, Nat.cast_mul, Nat.pow_eq, Nat.cast_pow, zpow_natCast]
    rw [div_div]
  · obtain ⟨k, hk⟩ : ∃ k : Nat, e = -(k : Int) := ⟨(-e).toNat, by omega⟩
    subst hk
    refine ⟨hden, ?_⟩
    simp only [neg_neg, Int.toNat_natCast, Nat.cast_mul, Nat.pow_eq, Nat.cast_pow, zpow_neg,
      zpow_natCast, div_inv_eq_mul]
    rw [mul_div_right_comm]

/-- A decimal is a fraction of whole numbers. -/
theorem exists_fraction_eq (c : Nat) (e : Int) :
    ∃ num den : Nat, 0 < den ∧ (c : ℚ) * (10 : ℚ) ^ e = num / den := by
  obtain ⟨hden, hvalue⟩ := unscale_spec c (show 0 < 10 by decide) Nat.one_pos (-e)
  refine ⟨(unscale 10 c 1 (-e)).1, _, hden, ?_⟩
  rw [hvalue]
  simp

theorem log2_bounds {n : Nat} (hn : 0 < n) :
    (2 : ℚ) ^ (Nat.log2 n : Int) ≤ n ∧ (n : ℚ) < (2 : ℚ) ^ ((Nat.log2 n : Int) + 1) := by
  have hle : 2 ^ Nat.log2 n ≤ n := Nat.log2_self_le hn.ne'
  have hlt : n < 2 ^ (Nat.log2 n + 1) := Nat.lt_log2_self
  exact ⟨by exact_mod_cast hle, by exact_mod_cast hlt⟩

/-- The logarithms of the parts give that of the fraction up to one, and a comparison decides. -/
theorem log2Quotient_eq_log {num den : Nat} (hnum : 0 < num) (hden : 0 < den) :
    log2Quotient num den = Int.log 2 ((num : ℚ) / den) := by
  have hpos : (0 : ℚ) < (num : ℚ) / den := by positivity
  obtain ⟨hnumLow, hnumHigh⟩ := log2_bounds hnum
  obtain ⟨hdenLow, hdenHigh⟩ := log2_bounds hden
  have hnumPos : (0 : ℚ) < num := by exact_mod_cast hnum
  have hdenPos : (0 : ℚ) < den := by exact_mod_cast hden
  unfold log2Quotient
  dsimp only
  generalize (Nat.log2 num : Int) = a at *
  generalize (Nat.log2 den : Int) = b at *
  obtain ⟨hf, hvalue⟩ := unscale_spec num Nat.two_pos hden (a - b)
  have htwo : (0 : ℚ) < 2 ^ (a - b) := by positivity
  have hcompare : (unscale 2 num den (a - b)).2 ≤ (unscale 2 num den (a - b)).1 ↔
      a - b ≤ Int.log 2 ((num : ℚ) / den) := by
    have hfq : (0 : ℚ) < (unscale 2 num den (a - b)).2 := by exact_mod_cast hf
    rw [← Int.zpow_le_iff_le_log Nat.one_lt_two hpos, ← Nat.cast_le (α := ℚ), ← one_le_div hfq,
      hvalue, one_le_div (by exact_mod_cast htwo)]
  have hhigh : Int.log 2 ((num : ℚ) / den) < a - b + 1 := by
    rw [← Int.lt_zpow_iff_log_lt Nat.one_lt_two hpos, div_lt_iff₀ hdenPos]
    calc (num : ℚ) < 2 ^ (a + 1) := hnumHigh
      _ = 2 ^ (a - b + 1) * 2 ^ b := by rw [← zpow_add₀ two_ne_zero]; congr 1; omega
      _ ≤ (2 : Nat) ^ (a - b + 1) * den := by
        exact mul_le_mul_of_nonneg_left hdenLow (by positivity)
  have hlow : a - b - 1 ≤ Int.log 2 ((num : ℚ) / den) := by
    rw [← Int.zpow_le_iff_le_log Nat.one_lt_two hpos, le_div_iff₀ hdenPos]
    calc ((2 : Nat) : ℚ) ^ (a - b - 1) * den ≤ 2 ^ (a - b - 1) * 2 ^ (b + 1) := by
          exact mul_le_mul_of_nonneg_left hdenHigh.le (by positivity)
      _ = 2 ^ a := by rw [← zpow_add₀ two_ne_zero]; congr 1; omega
      _ ≤ num := hnumLow
  split
  · have := hcompare.mp ‹_›
    omega
  · have := mt hcompare.mpr ‹_›
    omega

/-! ## Rounding -/

theorem roundQuotient_mul {k : Nat} (hk : 0 < k) (num den : Nat) :
    roundQuotient (num * k) (den * k) = roundQuotient num den := by
  have hcompare (a b : Nat) : a * k < b * k ↔ a < b := Nat.mul_lt_mul_right hk
  unfold roundQuotient
  dsimp only
  rw [Nat.mul_div_mul_right _ _ hk, Nat.mul_mod_mul_right, ← Nat.mul_assoc]
  simp only [hcompare]

theorem roundQuotient_congr {num den num' den' : Nat} (hden : 0 < den) (hden' : 0 < den')
    (h : (num : ℚ) / den = num' / den') : roundQuotient num den = roundQuotient num' den' := by
  have hcross : num * den' = num' * den := by
    rw [div_eq_div_iff (by positivity) (by positivity)] at h
    exact_mod_cast h
  rw [← roundQuotient_mul hden' num den, ← roundQuotient_mul hden num' den', hcross,
    Nat.mul_comm den den']

theorem roundQuotient_mul_self {den : Nat} (hden : 0 < den) (q : Nat) :
    roundQuotient (q * den) den = q := by
  unfold roundQuotient
  dsimp only
  rw [Nat.mul_mod_left, Nat.mul_div_cancel _ hden, if_pos (by omega)]

namespace Magnitude

/-- The rounded magnitude depends on the rational number only. -/
theorem round?_congr {num den num' den' : Nat} (hden : 0 < den) (hden' : 0 < den')
    (h : (num : ℚ) / den = num' / den') : round? num den = round? num' den' := by
  have hzero : num = 0 ↔ num' = 0 := by
    have hq : (num : ℚ) / den = 0 ↔ (num' : ℚ) / den' = 0 := by rw [h]
    simpa [div_eq_zero_iff, hden.ne', hden'.ne'] using hq
  unfold round?
  by_cases hnum : num = 0
  · rw [if_pos hnum, if_pos (hzero.mp hnum)]
  rw [if_neg hnum, if_neg (mt hzero.mpr hnum),
    log2Quotient_eq_log (Nat.pos_of_ne_zero hnum) hden,
    log2Quotient_eq_log (Nat.pos_of_ne_zero (mt hzero.mpr hnum)) hden', h]
  dsimp only
  generalize max (-1074) (Int.log 2 ((num' : ℚ) / den') - 52) = e
  obtain ⟨hf, hvalue⟩ := unscale_spec num Nat.two_pos hden e
  obtain ⟨hf', hvalue'⟩ := unscale_spec num' Nat.two_pos hden' e
  rw [roundQuotient_congr hf hf' (by rw [hvalue, hvalue', h])]

theorem ofScaled?_of_lt {m : Nat} {e : Int} (he : 971 < e) : ofScaled? m e = none := by
  unfold ofScaled?
  by_cases hm : m = Nat.pow 2 53
  · rw [if_pos hm]
    exact dif_neg (by omega)
  · rw [if_neg hm]
    exact dif_neg (by omega)

theorem round?_of_large {num den : Nat} (hden : 0 < den)
    (h : (2 : ℚ) ^ (1024 : Int) ≤ (num : ℚ) / den) : round? num den = none := by
  have hpos : (0 : ℚ) < (num : ℚ) / den := lt_of_lt_of_le (by positivity) h
  have hnum : num ≠ 0 := by
    rintro rfl
    simp at hpos
  have hlog : 1024 ≤ Int.log 2 ((num : ℚ) / den) :=
    (Int.zpow_le_iff_le_log Nat.one_lt_two hpos).mp (by exact_mod_cast h)
  unfold round?
  rw [if_neg hnum, log2Quotient_eq_log (Nat.pos_of_ne_zero hnum) hden]
  exact ofScaled?_of_lt (by omega)

theorem round?_of_small {num den : Nat} (hden : 0 < den)
    (h : (num : ℚ) / den < (2 : ℚ) ^ (-1075 : Int)) : round? num den = some zero := by
  unfold round?
  by_cases hnum : num = 0
  · exact if_pos hnum
  have hpos : (0 : ℚ) < (num : ℚ) / den := by positivity
  have hlog : Int.log 2 ((num : ℚ) / den) < -1075 :=
    (Int.lt_zpow_iff_log_lt Nat.one_lt_two hpos).mp (by exact_mod_cast h)
  have hscale : max (-1074) (Int.log 2 ((num : ℚ) / den) - 52) = -1074 := by omega
  rw [if_neg hnum, log2Quotient_eq_log (Nat.pos_of_ne_zero hnum) hden, hscale]
  obtain ⟨hf, hvalue⟩ := unscale_spec num Nat.two_pos hden (-1074)
  have hhalf : ((unscale 2 num den (-1074)).1 : ℚ) / (unscale 2 num den (-1074)).2 < 1 / 2 := by
    rw [hvalue, div_lt_iff₀ (by positivity)]
    calc (num : ℚ) / den < 2 ^ (-1075 : Int) := h
      _ = 2 ^ (-1 : Int) * 2 ^ (-1074 : Int) := zpow_add₀ two_ne_zero (-1) (-1074)
      _ = 1 / 2 * ((2 : Nat) : ℚ) ^ (-1074 : Int) := by rw [zpow_neg_one, one_div, Nat.cast_ofNat]
  have hround : roundQuotient (unscale 2 num den (-1074)).1 (unscale 2 num den (-1074)).2 = 0 := by
    refine Nat.le_zero.mp ((roundQuotient_le_iff hf).mpr (Or.inl ?_))
    rw [div_lt_div_iff₀ (by exact_mod_cast hf) two_pos] at hhalf
    have : (unscale 2 num den (-1074)).1 * 2 < 1 * (unscale 2 num den (-1074)).2 := by
      exact_mod_cast hhalf
    omega
  dsimp only
  rw [hround]
  rfl

/-- The shortcuts for large and small powers of ten agree with rounding. -/
theorem ofDecimal?_eq_round? {c : Nat} {e : Int} {num den : Nat} (hden : 0 < den)
    (h : (c : ℚ) * (10 : ℚ) ^ e = num / den) : ofDecimal? c e = round? num den := by
  unfold ofDecimal?
  by_cases hc : c = 0
  · subst hc
    have hnum : num = 0 := by
      simpa [eq_comm, div_eq_zero_iff, hden.ne'] using h
    rw [if_pos rfl, hnum]
    rfl
  obtain ⟨hlow, hhigh⟩ := log2_bounds (Nat.pos_of_ne_zero hc)
  rw [if_neg hc]
  split
  · obtain ⟨k, rfl⟩ := Int.eq_ofNat_of_zero_le ‹0 ≤ e›
    have hpow : (2 : ℚ) ^ (3 * (k : Int)) ≤ 10 ^ (k : Int) := by
      rw [zpow_mul]
      exact_mod_cast Nat.pow_le_pow_left (show 2 ^ 3 ≤ 10 by decide) k
    split
    · refine (round?_of_large hden ?_).symm
      rw [← h]
      calc (2 : ℚ) ^ (1024 : Int) ≤ 2 ^ ((Nat.log2 c : Int) + 3 * k) :=
            zpow_le_zpow_right₀ one_le_two ‹_›
        _ = 2 ^ (Nat.log2 c : Int) * 2 ^ (3 * (k : Int)) := zpow_add₀ two_ne_zero _ _
        _ ≤ c * 10 ^ (k : Int) := mul_le_mul hlow hpow (by positivity) (by positivity)
    · refine round?_congr Nat.one_pos hden ?_
      rw [← h]
      simp
  · obtain ⟨k, hk⟩ : ∃ k : Nat, e = -(k : Int) := ⟨(-e).toNat, by omega⟩
    subst hk
    have hpow : (10 : ℚ) ^ (-(k : Int)) ≤ 2 ^ (-(3 * (k : Int))) := by
      rw [zpow_neg, zpow_neg, zpow_mul]
      refine inv_anti₀ (by positivity) ?_
      exact_mod_cast Nat.pow_le_pow_left (show 2 ^ 3 ≤ 10 by decide) k
    split
    · refine (round?_of_small hden ?_).symm
      rw [← h]
      calc (c : ℚ) * 10 ^ (-(k : Int)) < 2 ^ ((Nat.log2 c : Int) + 1) * 2 ^ (-(3 * (k : Int))) :=
            mul_lt_mul hhigh hpow (by positivity) (by positivity)
        _ = 2 ^ ((Nat.log2 c : Int) + 1 + -(3 * (k : Int))) := (zpow_add₀ two_ne_zero _ _).symm
        _ ≤ 2 ^ (-1075 : Int) := zpow_le_zpow_right₀ one_le_two (by omega)
    · refine round?_congr (Nat.pow_pos (by decide)) hden ?_
      rw [← h]
      simp [div_eq_mul_inv]

/-! ## Magnitudes -/

/-- The number that a magnitude stands for. -/
def value (m : Magnitude) : ℚ := m.mantissa * (2 : ℚ) ^ m.exponent

theorem fraction_spec (m : Magnitude) :
    0 < m.fraction.2 ∧ (m.fraction.1 : ℚ) / m.fraction.2 = m.value := by
  unfold fraction value
  split
  · obtain ⟨k, hk⟩ := Int.eq_ofNat_of_zero_le ‹0 ≤ m.exponent›
    rw [hk]
    refine ⟨Nat.one_pos, ?_⟩
    simp
  · obtain ⟨k, hk⟩ : ∃ k : Nat, m.exponent = -(k : Int) := ⟨(-m.exponent).toNat, by omega⟩
    rw [hk]
    refine ⟨Nat.pow_pos Nat.two_pos, ?_⟩
    simp [div_eq_mul_inv]

/-- A positive magnitude is rounded at its own exponent. -/
theorem exponent_eq {m : Magnitude} (hm : m.mantissa ≠ 0) :
    max (-1074) (Int.log 2 m.value - 52) = m.exponent := by
  have hpos : 0 < m.mantissa := Nat.pos_of_ne_zero hm
  have hvalue : 0 < m.value := by
    unfold value
    positivity
  obtain ⟨hlow, hhigh⟩ := log2_bounds hpos
  have hlog : Int.log 2 m.value = Nat.log2 m.mantissa + m.exponent := by
    refine le_antisymm (Int.lt_add_one_iff.mp ?_) ?_
    · rw [← Int.lt_zpow_iff_log_lt Nat.one_lt_two hvalue]
      calc m.value < 2 ^ ((Nat.log2 m.mantissa : Int) + 1) * 2 ^ m.exponent :=
            mul_lt_mul_of_pos_right hhigh (by positivity)
        _ = ((2 : Nat) : ℚ) ^ ((Nat.log2 m.mantissa : Int) + m.exponent + 1) := by
            rw [Nat.cast_ofNat, ← zpow_add₀ two_ne_zero]
            congr 1
            omega
    · rw [← Int.zpow_le_iff_le_log Nat.one_lt_two hvalue, Nat.cast_ofNat, zpow_add₀ two_ne_zero]
      exact mul_le_mul_of_nonneg_right hlow (by positivity)
  have htop : Nat.log2 m.mantissa < 53 := (Nat.log2_lt hm).mpr m.mantissa_lt
  have hmin := m.exponent_ge
  rcases m.normal with hnormal | hleast
  · have hbit : 52 ≤ Nat.log2 m.mantissa := (Nat.le_log2 hm).mpr hnormal
    omega
  · omega

/-- A magnitude is nearest to itself. -/
theorem round?_fraction {m : Magnitude} (hm : m.mantissa ≠ 0) :
    round? m.fraction.1 m.fraction.2 = some m := by
  obtain ⟨hden, hvalue⟩ := m.fraction_spec
  have hnum : m.fraction.1 ≠ 0 := by
    intro hzero
    rw [hzero, Nat.cast_zero, zero_div] at hvalue
    have hpos : (0 : ℚ) < m.value := by
      unfold value
      have := Nat.pos_of_ne_zero hm
      positivity
    exact absurd hvalue hpos.ne
  have hscale : max (-1074) (log2Quotient m.fraction.1 m.fraction.2 - 52) = m.exponent := by
    rw [log2Quotient_eq_log (Nat.pos_of_ne_zero hnum) hden, hvalue, exponent_eq hm]
  obtain ⟨hf, hquotient⟩ := unscale_spec m.fraction.1 Nat.two_pos hden m.exponent
  have hround : roundQuotient (unscale 2 m.fraction.1 m.fraction.2 m.exponent).1
      (unscale 2 m.fraction.1 m.fraction.2 m.exponent).2 = m.mantissa := by
    rw [← roundQuotient_mul_self Nat.one_pos m.mantissa]
    refine roundQuotient_congr hf Nat.one_pos ?_
    rw [hquotient, hvalue, value, Nat.cast_ofNat, mul_div_cancel_right₀ _ (by positivity)]
    simp
  have hlt : m.mantissa ≠ Nat.pow 2 53 := m.mantissa_lt.ne
  unfold round?
  rw [if_neg hnum, hscale]
  dsimp only
  rw [hround]
  unfold ofScaled?
  rw [if_neg hlt]
  exact dif_pos ⟨m.mantissa_lt, m.exponent_ge, m.exponent_le, m.normal⟩

/-- A number that is a magnitude is read as that magnitude. -/
theorem ofDecimal?_of_value {m : Magnitude} {c : Nat} {e : Int} (hm : m.mantissa ≠ 0)
    (h : (c : ℚ) * (10 : ℚ) ^ e = m.value) : ofDecimal? c e = some m := by
  obtain ⟨hden, hvalue⟩ := m.fraction_spec
  rw [ofDecimal?_eq_round? hden (h.trans hvalue.symm), round?_fraction hm]

end Magnitude

/-! ## Shortest digits -/

namespace Decimal

/-- The number that a decimal writes. -/
def value (d : Decimal) : ℚ := d.coefficient * (10 : ℚ) ^ d.exponent

end Decimal

namespace Magnitude

/-- The double nearest to a decimal depends on the number only. -/
theorem ofDecimal?_congr {d d' : Decimal} (h : d.value = d'.value) :
    ofDecimal? d.coefficient d.exponent = ofDecimal? d'.coefficient d'.exponent := by
  obtain ⟨num, den, hden, hnumber⟩ := exists_fraction_eq d.coefficient d.exponent
  rw [ofDecimal?_eq_round? hden hnumber, ofDecimal?_eq_round? hden (h.symm.trans hnumber)]

theorem value_exactDecimal (m : Magnitude) : m.exactDecimal.value = m.value := by
  unfold exactDecimal Decimal.value value
  split
  · obtain ⟨k, hk⟩ := Int.eq_ofNat_of_zero_le ‹0 ≤ m.exponent›
    rw [hk]
    simp
  · obtain ⟨k, hk⟩ : ∃ k : Nat, m.exponent = -(k : Int) := ⟨(-m.exponent).toNat, by omega⟩
    have hten : (10 : ℚ) ^ k = 5 ^ k * 2 ^ k := by rw [← mul_pow]; norm_num
    rw [hk]
    simp [hten]
    field_simp

/-- The digits that are written read back as the magnitude. -/
theorem ofDecimal?_shortest {m : Magnitude} (hm : m.mantissa ≠ 0) :
    ofDecimal? m.shortest.coefficient m.shortest.exponent = some m := by
  have hexact : ofDecimal? m.exactDecimal.coefficient m.exactDecimal.exponent = some m :=
    ofDecimal?_of_value hm m.value_exactDecimal
  unfold shortest
  cases hfound : (List.range 17).findSome? fun n =>
      m.withDigits? (log10Quotient m.fraction.1 m.fraction.2) (n + 1) with
  | none =>
    dsimp only
    rw [hfound]
    exact hexact
  | some d =>
    obtain ⟨n, -, hd⟩ := List.exists_of_findSome?_eq_some hfound
    have hreads : m.readsBack d = true := List.find?_some hd
    dsimp only
    rw [hfound]
    simpa [readsBack] using hreads

end Magnitude

end Columnar
