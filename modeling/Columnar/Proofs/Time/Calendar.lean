import Columnar.Time.Timestamp
import Mathlib.Data.List.GetD

/-!
# Counting days

The days before a year and the days of its months before a date give the date its number. The mean
length of a year estimates the year of a number up to one, and the lengths of the months are
subtracted one by one; so the number gives the date back. Main statement: a timestamp that is
counted in microseconds and counted back is itself, and so is one that is not moved.
-/

namespace Columnar

/-! ## Years -/

def yearLength (year : Nat) : Nat := if isLeapYear year then 366 else 365

theorem succ_div_eq (n k : Nat) :
    (n + 1) / k = n / k + if (n + 1) % k = 0 then 1 else 0 := by
  rw [Nat.succ_div]
  simp only [Nat.dvd_iff_mod_eq_zero]

theorem daysBeforeYear_succ {year : Nat} (h : 1 ≤ year) :
    daysBeforeYear (year + 1) = daysBeforeYear year + yearLength year := by
  obtain ⟨y, rfl⟩ : ∃ y, year = y + 1 := ⟨year - 1, (Nat.sub_add_cancel h).symm⟩
  -- The three quotients step up exactly in the years that the leap rule asks about.
  have hhundred : y / 100 ≤ y / 4 := Nat.div_le_div_left (by decide) (by decide)
  have hrule : ((y + 1) % 400 = 0 → (y + 1) % 100 = 0) ∧
      ((y + 1) % 100 = 0 → (y + 1) % 4 = 0) := by
    omega
  unfold daysBeforeYear yearLength isLeapYear
  simp only [Nat.add_sub_cancel, succ_div_eq y, Bool.and_eq_true, Bool.or_eq_true,
    decide_eq_true_eq]
  generalize y / 4 = a, y / 100 = b, y / 400 = c at *
  generalize (y + 1) % 4 = r, (y + 1) % 100 = s, (y + 1) % 400 = t at *
  split <;> split <;> split <;> split <;> omega

theorem daysBeforeYear_le_succ (year : Nat) :
    daysBeforeYear year ≤ daysBeforeYear (year + 1) := by
  cases year with
  | zero => exact Nat.le_refl 0
  | succ y =>
    rw [daysBeforeYear_succ (Nat.succ_le_succ (Nat.zero_le y))]
    exact Nat.le_add_right _ _

namespace Date

/-- The mean length of a year, 146097 days in 400 years, gives the year of a day up to one. -/
theorem year_estimate {year n : Nat} (hyear : 1 ≤ year) (hlow : daysBeforeYear year ≤ n)
    (hhigh : n < daysBeforeYear (year + 1)) :
    year - 1 ≤ n * 400 / 146097 + 1 ∧ n * 400 / 146097 + 1 ≤ year + 1 := by
  unfold daysBeforeYear at hlow hhigh
  dsimp only at hlow hhigh
  omega

theorem yearOfDay_eq {year n : Nat} (hyear : 1 ≤ year) (hlow : daysBeforeYear year ≤ n)
    (hhigh : n < daysBeforeYear (year + 1)) : yearOfDay n = year := by
  obtain ⟨hbelow, habove⟩ := year_estimate hyear hlow hhigh
  unfold yearOfDay
  dsimp only
  generalize n * 400 / 146097 + 1 = y at hbelow habove
  rcases Nat.lt_trichotomy y year with h | h | h
  · obtain rfl : year = y + 1 := by omega
    have hle := daysBeforeYear_le_succ y
    rw [if_neg (by omega), if_pos hlow]
  · subst h
    rw [if_neg (by omega), if_neg (by omega)]
  · obtain rfl : y = year + 1 := by omega
    rw [if_pos hhigh, Nat.add_sub_cancel]

/-! ## Months -/

theorem monthOfDay_daysOfMonths {lens : List Nat} {k r : Nat} (h : r < lens.getD k 0) :
    monthOfDay lens (daysOfMonths lens k + r) = (k + 1, r + 1) := by
  induction lens generalizing k with
  | nil => exact absurd h (Nat.not_lt_zero r)
  | cons len rest ih =>
    cases k with
    | zero =>
      have hr : r < len := h
      rw [daysOfMonths, Nat.zero_add, monthOfDay, if_pos hr]
      simp
    | succ k =>
      have hr : r < rest.getD k 0 := h
      rw [daysOfMonths, monthOfDay, if_neg (by omega), Nat.add_assoc, Nat.add_sub_cancel_left,
        ih hr]

theorem daysOfMonths_add_le (lens : List Nat) (k : Nat) :
    daysOfMonths lens k + lens.getD k 0 ≤ daysOfMonths lens lens.length := by
  induction lens generalizing k with
  | nil => exact Nat.le_refl 0
  | cons len rest ih =>
    rw [List.length_cons, daysOfMonths]
    cases k with
    | zero =>
      change 0 + len ≤ len + daysOfMonths rest rest.length
      omega
    | succ k =>
      rw [daysOfMonths, Nat.add_assoc]
      exact Nat.add_le_add_left (ih k) len

theorem daysOfMonths_year (year : Nat) :
    daysOfMonths (monthLengths year) (monthLengths year).length = yearLength year := by
  unfold monthLengths yearLength
  split <;> rfl

/-- The month of a date is one of twelve, and none has more than 31 days. -/
theorem month_bounds (d : Date) : 1 ≤ d.month ∧ d.month ≤ 12 ∧ d.day ≤ 31 := by
  have hpos := d.day_pos
  have hle := d.day_le
  unfold daysInMonth at hle
  split at hle
  · omega
  · have hmonth : d.month - 1 < 12 := by
      rcases Nat.lt_or_ge (d.month - 1) 12 with hlt | hge
      · exact hlt
      · rw [List.getD_eq_default _ _ hge] at hle
        omega
    have hlength : ∀ len ∈ monthLengths d.year, len ≤ 31 := by
      unfold monthLengths
      split <;> decide
    have hindex : d.month - 1 < (monthLengths d.year).length := hmonth
    rw [List.getD_eq_getElem _ _ hindex] at hle
    exact ⟨by omega, by omega, Nat.le_trans hle (hlength _ (List.getElem_mem _))⟩

theorem day_lt (d : Date) : d.day - 1 < (monthLengths d.year).getD (d.month - 1) 0 := by
  have hpos := d.day_pos
  have hle := d.day_le
  rw [daysInMonth, if_neg (by have := d.month_bounds; omega)] at hle
  omega

/-! ## Dates -/

theorem ofParts?_self (d : Date) : ofParts? d.year d.month d.day = some d :=
  dif_pos ⟨d.year_pos, d.year_le, d.day_pos, d.day_le⟩

theorem dayNumber_lt (d : Date) : d.dayNumber < daysBeforeYear (d.year + 1) := by
  have hday := d.day_lt
  have hmonths := daysOfMonths_add_le (monthLengths d.year) (d.month - 1)
  rw [daysOfMonths_year] at hmonths
  rw [daysBeforeYear_succ d.year_pos, dayNumber]
  omega

/-- The number of a date gives the date back. -/
theorem ofDayNumber?_dayNumber (d : Date) : ofDayNumber? d.dayNumber = some d := by
  have hlow : daysBeforeYear d.year ≤ d.dayNumber := by
    rw [dayNumber, Nat.add_assoc]
    exact Nat.le_add_right _ _
  have hrest : d.dayNumber - daysBeforeYear d.year =
      daysOfMonths (monthLengths d.year) (d.month - 1) + (d.day - 1) := by
    rw [dayNumber, Nat.add_assoc, Nat.add_sub_cancel_left]
  have hmonth : d.month - 1 + 1 = d.month := Nat.sub_add_cancel d.month_bounds.1
  have hday : d.day - 1 + 1 = d.day := Nat.sub_add_cancel d.day_pos
  unfold ofDayNumber?
  rw [yearOfDay_eq d.year_pos hlow d.dayNumber_lt]
  dsimp only
  rw [hrest, monthOfDay_daysOfMonths d.day_lt]
  dsimp only
  rw [hmonth, hday, ofParts?_self]

end Date

/-! ## Times and timestamps -/

namespace TimeOfDay

theorem ofParts?_self (t : TimeOfDay) : ofParts? t.hour t.minute t.second t.micro = some t :=
  dif_pos ⟨t.hour_lt, t.minute_lt, t.second_lt, t.micro_lt⟩

theorem ofMicros_micros (t : TimeOfDay) : ofMicros t.micros = t := by
  obtain ⟨hour, minute, second, micro, hhour, hminute, hsecond, hmicro⟩ := t
  simp only [ofMicros, micros, TimeOfDay.mk.injEq]
  omega

end TimeOfDay

namespace Timestamp

theorem ofMicros?_micros (t : Timestamp) : ofMicros? t.micros = some t := by
  have hlt := t.time.micros_lt
  have hdate : t.micros / 86400000000 = t.date.dayNumber := by
    unfold micros
    omega
  have htime : t.micros % 86400000000 = t.time.micros := by
    unfold micros
    omega
  unfold ofMicros?
  rw [if_neg (by omega), Int.toNat_natCast, hdate, htime, Date.ofDayNumber?_dayNumber,
    TimeOfDay.ofMicros_micros]
  rfl

/-- Universal time is not moved. -/
theorem shift?_zero (t : Timestamp) : t.shift? 0 = some t := by
  rw [shift?, Int.add_zero, ofMicros?_micros]

end Timestamp

end Columnar
