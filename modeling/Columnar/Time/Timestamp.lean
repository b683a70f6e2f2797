import Columnar.Time.Date
import Columnar.Time.TimeOfDay

/-!
# Timestamps

A timestamp is a date with a time of day, in universal time. Its position on the time line is the
count of microseconds since the start of year 1, and `Timestamp.ofMicros?` goes back from a count,
if it lies in the years 1 to 9999.
-/

namespace Columnar

/-- A date with a time of day. -/
structure Timestamp where
  date : Date
  time : TimeOfDay
deriving DecidableEq, Repr

namespace Timestamp

/-- The microseconds since the start of year 1. -/
def micros (t : Timestamp) : Nat := t.date.dayNumber * 86400000000 + t.time.micros

/-- The timestamp so many microseconds after the start of year 1, if it is in range. -/
def ofMicros? (n : Int) : Option Timestamp :=
  if n < 0 then none
  else (Date.ofDayNumber? (n.toNat / 86400000000)).map fun date =>
    ⟨date, TimeOfDay.ofMicros (n.toNat % 86400000000)⟩

/-- The timestamp moved by a number of microseconds, if it stays in range. -/
def shift? (t : Timestamp) (delta : Int) : Option Timestamp := ofMicros? (t.micros + delta)

def text (t : Timestamp) : List Char := t.date.text ++ 'T' :: t.time.text

end Timestamp

end Columnar
