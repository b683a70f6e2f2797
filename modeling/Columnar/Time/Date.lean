import Columnar.Number.Notation

/-!
# Calendar dates

Dates of the proleptic Gregorian calendar in the years 1 to 9999. `Date.dayNumber` counts the days
since 1 January of year 1, and `Date.ofDayNumber?` goes back from the count to the date.
-/

namespace Columnar

/-- Does the year have a 29 February? -/
def isLeapYear (year : Nat) : Bool := year % 4 = 0 && (year % 100 ≠ 0 || year % 400 = 0)

/-- The lengths of the months of a year. -/
def monthLengths (year : Nat) : List Nat :=
  [31, if isLeapYear year then 29 else 28, 31, 30, 31, 30, 31, 31, 30, 31, 30, 31]

/-- The length of a month, counted from 1; other numbers name no month. -/
def daysInMonth (year month : Nat) : Nat :=
  if month = 0 then 0 else (monthLengths year).getD (month - 1) 0

/-- A calendar date. -/
structure Date where
  year : Nat
  month : Nat
  day : Nat
  year_pos : 1 ≤ year
  year_le : year ≤ 9999
  day_pos : 1 ≤ day
  day_le : day ≤ daysInMonth year month
deriving DecidableEq, Repr

/-- The days of all years before a year. -/
def daysBeforeYear (year : Nat) : Nat :=
  let y := year - 1
  365 * y + y / 4 - y / 100 + y / 400

namespace Date

/-- The date with these parts, if there is one. -/
def ofParts? (year month day : Nat) : Option Date :=
  if h : 1 ≤ year ∧ year ≤ 9999 ∧ 1 ≤ day ∧ day ≤ daysInMonth year month then
    some ⟨year, month, day, h.1, h.2.1, h.2.2.1, h.2.2.2⟩
  else none

/-- The days of the first so many months of a year with these months. -/
def daysOfMonths : List Nat → Nat → Nat
  | len :: rest, count + 1 => len + daysOfMonths rest count
  | _, _ => 0

/-- The number of days from 1 January of year 1 to the date. -/
def dayNumber (d : Date) : Nat :=
  daysBeforeYear d.year + daysOfMonths (monthLengths d.year) (d.month - 1) + (d.day - 1)

/-- The year in which a day lies. The mean length of a year gives it up to one year. -/
def yearOfDay (n : Nat) : Nat :=
  let y := n * 400 / 146097 + 1
  if n < daysBeforeYear y then y - 1
  else if daysBeforeYear (y + 1) ≤ n then y + 1
  else y

/-- The month and day, both counted from 1, of a day of a year with these months. -/
def monthOfDay : List Nat → Nat → Nat × Nat
  | [], n => (1, n + 1)
  | len :: rest, n =>
    if n < len then (1, n + 1)
    else
      let (month, day) := monthOfDay rest (n - len)
      (month + 1, day)

/-- The date so many days after 1 January of year 1, if its year is in range. -/
def ofDayNumber? (n : Nat) : Option Date :=
  let year := yearOfDay n
  let (month, day) := monthOfDay (monthLengths year) (n - daysBeforeYear year)
  ofParts? year month day

/-- Year, month and day with four, two and two digits. -/
def text (d : Date) : List Char :=
  padded 4 d.year ++ '-' :: padded 2 d.month ++ '-' :: padded 2 d.day

end Date

end Columnar
