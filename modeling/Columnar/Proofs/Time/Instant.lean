import Columnar.Proofs.Time.Calendar
import Mathlib.Algebra.GroupWithZero.Nat

/-!
# Instants

An instant is counted out, day by day, from the lengths of the years and months that have passed and
the hours, minutes and seconds of the day. The closed formula for the days before a year counts the
same, and every count of days in the years 1 to 9999 is that of a date. Main statement: a timestamp
can be moved exactly if its new instant lies between the first and the last one, and then it is the
only timestamp of that instant.
-/

namespace Columnar

/-! ## Days counted out -/

theorem daysBeforeYear_eq_sum (year : Nat) :
    daysBeforeYear year = ((List.range' 1 (year - 1)).map yearLength).sum := by
  induction year with
  | zero => rfl
  | succ year ih =>
    cases year with
    | zero => rfl
    | succ y =>
      have hsucc : y + 1 + 1 - 1 = (y + 1 - 1) + 1 := rfl
      rw [daysBeforeYear_succ (by omega), ih, hsucc, List.range'_1_concat, List.map_append,
        List.sum_append, Nat.add_comm 1]
      rfl

theorem daysBeforeYear_mono {year later : Nat} (h : year ≤ later) :
    daysBeforeYear year ≤ daysBeforeYear later := by
  induction h with
  | refl => exact Nat.le_refl _
  | step _ ih => exact Nat.le_trans ih (daysBeforeYear_le_succ _)

/-- Every day lies in a year. -/
theorem exists_year (n : Nat) :
    ∃ year, 1 ≤ year ∧ daysBeforeYear year ≤ n ∧ n < daysBeforeYear (year + 1) := by
  induction n with
  | zero => exact ⟨1, by decide, by decide, by decide⟩
  | succ n ih =>
    obtain ⟨year, hyear, hlow, hhigh⟩ := ih
    by_cases hlast : n + 1 < daysBeforeYear (year + 1)
    · exact ⟨year, hyear, by omega, hlast⟩
    · have hnext := daysBeforeYear_succ (show 1 ≤ year + 1 by omega)
      have hlong : 0 < yearLength (year + 1) := by
        unfold yearLength
        split <;> decide
      exact ⟨year + 1, by omega, by omega, by omega⟩

namespace Date

theorem daysOfMonths_eq_sum (lens : List Nat) (count : Nat) :
    daysOfMonths lens count = (lens.take count).sum := by
  induction lens generalizing count with
  | nil =>
    rw [List.take_nil]
    rfl
  | cons len rest ih =>
    cases count with
    | zero => rfl
    | succ count => rw [daysOfMonths, ih, List.take_succ_cons, List.sum_cons]

/-- Every day of a year lies in a month. -/
theorem exists_month {lens : List Nat} {n : Nat} (h : n < daysOfMonths lens lens.length) :
    ∃ k r, monthOfDay lens n = (k + 1, r + 1) ∧ r < lens.getD k 0 ∧
      daysOfMonths lens k + r = n := by
  induction lens generalizing n with
  | nil => exact absurd h (Nat.not_lt_zero n)
  | cons len rest ih =>
    by_cases hfirst : n < len
    · exact ⟨0, n, if_pos hfirst, hfirst, Nat.zero_add n⟩
    · have hrest : n - len < daysOfMonths rest rest.length := by
        rw [List.length_cons, daysOfMonths] at h
        omega
      obtain ⟨k, r, hmonth, hr, hsum⟩ := ih hrest
      refine ⟨k + 1, r, ?_, hr, ?_⟩
      · rw [monthOfDay, if_neg hfirst, hmonth]
      · rw [daysOfMonths]
        omega

/-- The days from 1 January of year 1 to a date, by the lengths of the years and months between. -/
def elapsed (d : Date) : Nat :=
  ((List.range' 1 (d.year - 1)).map yearLength).sum +
    ((monthLengths d.year).take (d.month - 1)).sum + (d.day - 1)

theorem dayNumber_eq_elapsed (d : Date) : d.dayNumber = d.elapsed := by
  rw [dayNumber, elapsed, daysBeforeYear_eq_sum, daysOfMonths_eq_sum]

theorem ofParts?_eq_some_iff {year month day : Nat} {d : Date} :
    ofParts? year month day = some d ↔ d.year = year ∧ d.month = month ∧ d.day = day := by
  constructor
  · intro h
    obtain ⟨_, hd⟩ := Option.dite_none_right_eq_some.mp h
    cases hd
    exact ⟨rfl, rfl, rfl⟩
  · rintro ⟨rfl, rfl, rfl⟩
    exact d.ofParts?_self

/-- The year, month and day of a day's number have that number, whether or not the year is in
range. -/
theorem exists_ofDayNumber? (n : Nat) :
    ∃ year month day, ofDayNumber? n = ofParts? year month day ∧ 1 ≤ year ∧ 1 ≤ day ∧
      day ≤ daysInMonth year month ∧ daysBeforeYear year ≤ n ∧
      daysBeforeYear year + daysOfMonths (monthLengths year) (month - 1) + (day - 1) = n := by
  obtain ⟨year, hyear, hlow, hhigh⟩ := exists_year n
  have hrest : n - daysBeforeYear year <
      daysOfMonths (monthLengths year) (monthLengths year).length := by
    rw [daysOfMonths_year]
    rw [daysBeforeYear_succ hyear] at hhigh
    omega
  obtain ⟨k, r, hmonth, hr, hsum⟩ := exists_month hrest
  refine ⟨year, k + 1, r + 1, ?_, hyear, Nat.succ_pos r, hr, hlow, ?_⟩
  · unfold ofDayNumber?
    rw [yearOfDay_eq hyear hlow hhigh]
    dsimp only
    rw [hmonth]
  · rw [Nat.add_sub_cancel, Nat.add_sub_cancel]
    omega

theorem ofDayNumber?_eq_some_iff {n : Nat} {d : Date} :
    ofDayNumber? n = some d ↔ d.dayNumber = n := by
  constructor
  · intro h
    obtain ⟨year, month, day, hparts, -, -, -, -, hnumber⟩ := exists_ofDayNumber? n
    rw [hparts] at h
    obtain ⟨rfl, rfl, rfl⟩ := ofParts?_eq_some_iff.mp h
    exact hnumber
  · rintro rfl
    exact d.ofDayNumber?_dayNumber

/-- The days before the end of year 9999 are those that have a date. -/
theorem exists_dayNumber_iff {n : Nat} :
    (∃ d : Date, d.dayNumber = n) ↔ n < daysBeforeYear 10000 := by
  constructor
  · rintro ⟨d, rfl⟩
    exact Nat.lt_of_lt_of_le d.dayNumber_lt (daysBeforeYear_mono (Nat.succ_le_succ d.year_le))
  · intro h
    obtain ⟨year, month, day, -, hyear, hday, hlength, hlow, hnumber⟩ := exists_ofDayNumber? n
    have hrange : year ≤ 9999 := by
      apply Nat.le_of_not_lt
      intro hlater
      have hmono : daysBeforeYear 10000 ≤ daysBeforeYear year := daysBeforeYear_mono hlater
      omega
    exact ⟨⟨year, month, day, hyear, hrange, hday, hlength⟩, hnumber⟩

end Date

/-! ## Instants -/

namespace Timestamp

/-- The microseconds from the start of year 1 to a timestamp, counted out. -/
def instant (t : Timestamp) : Int :=
  (((t.date.elapsed * 24 + t.time.hour) * 60 + t.time.minute) * 60 + t.time.second : Nat) *
    1000000 + t.time.micro

/-- The start of year 1. -/
def first : Timestamp :=
  ⟨⟨1, 1, 1, by decide, by decide, by decide, by decide⟩,
    ⟨0, 0, 0, 0, by decide, by decide, by decide, by decide⟩⟩

/-- The last microsecond of year 9999. -/
def last : Timestamp :=
  ⟨⟨9999, 12, 31, by decide, by decide, by decide, by decide⟩,
    ⟨23, 59, 59, 999999, by decide, by decide, by decide, by decide⟩⟩

theorem instant_eq_micros (t : Timestamp) : t.instant = t.micros := by
  unfold instant micros TimeOfDay.micros
  rw [Date.dayNumber_eq_elapsed]
  omega

theorem ofMicros?_eq_some_iff {n : Int} {t : Timestamp} :
    ofMicros? n = some t ↔ (t.micros : Int) = n := by
  constructor
  · intro h
    obtain ⟨hn, h⟩ := Option.ite_none_left_eq_some.mp h
    obtain ⟨date, hdate, rfl⟩ := Option.map_eq_some_iff.mp h
    have hnumber := Date.ofDayNumber?_eq_some_iff.mp hdate
    have htime := TimeOfDay.micros_ofMicros (n.toNat % 86400000000)
    unfold micros
    dsimp only
    omega
  · rintro rfl
    exact t.ofMicros?_micros

/-- A timestamp is moved to the timestamp of the instant that it is moved to. -/
theorem shift?_eq_some_iff {s t : Timestamp} {delta : Int} :
    s.shift? delta = some t ↔ t.instant = s.instant + delta := by
  rw [shift?, ofMicros?_eq_some_iff, instant_eq_micros, instant_eq_micros]

theorem instant_injective {s t : Timestamp} (h : s.instant = t.instant) : s = t := by
  have hs : s.shift? 0 = some t := shift?_eq_some_iff.mpr (by omega)
  rw [shift?_zero] at hs
  exact Option.some.inj hs

/-- Every microsecond from the first to the last is the instant of a timestamp. -/
theorem exists_instant_iff {n : Int} :
    (∃ t : Timestamp, t.instant = n) ↔ first.instant ≤ n ∧ n ≤ last.instant := by
  have hfirst : first.instant = 0 := by
    rw [instant_eq_micros]
    rfl
  have hlast : last.instant = daysBeforeYear 10000 * 86400000000 - 1 := by
    rw [instant_eq_micros]
    rfl
  rw [hfirst, hlast]
  constructor
  · rintro ⟨t, rfl⟩
    have hdate := Date.exists_dayNumber_iff.mp ⟨t.date, rfl⟩
    have htime := t.time.micros_lt
    rw [instant_eq_micros]
    unfold micros
    omega
  · rintro ⟨hlow, hhigh⟩
    have hday : n.toNat / 86400000000 < daysBeforeYear 10000 := by omega
    obtain ⟨date, hdate⟩ := Date.exists_dayNumber_iff.mpr hday
    have htime := TimeOfDay.micros_ofMicros (n.toNat % 86400000000)
    refine ⟨⟨date, TimeOfDay.ofMicros (n.toNat % 86400000000)⟩, ?_⟩
    rw [instant_eq_micros]
    unfold micros
    dsimp only
    omega

end Timestamp

end Columnar
