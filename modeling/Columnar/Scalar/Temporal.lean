import Columnar.Text.Blank
import Columnar.Text.Digit
import Columnar.Time.Timestamp

/-!
# Dates and times among scalars

A date is a year of four digits, a month and a day of one or two, with hyphens between. A time is
an hour of one or two digits and a minute of two, then optionally seconds, then optionally up to
nine digits of a fraction, of which six count. A timestamp is a date, the letter T or blanks, a
time, and optionally blanks and an offset from universal time, which is taken off again. The
readers below take a text from its head and return what remains.
-/

namespace Columnar.Scalar

open Text

/-- A number of at least `low` and at most `high` digits at the head of a text. -/
def takeNumber (low high : Nat) (cs : List Char) : Option (Nat × List Char) :=
  let ds := (cs.take high).takeWhile isDigit
  if ds.length < low then none else some (number (ds.filterMap digit?), cs.drop ds.length)

/-- The text behind a given character at the head. -/
def takeChar (c : Char) : List Char → Option (List Char)
  | [] => none
  | d :: rest => if d = c then some rest else none

@[simp] theorem takeChar_cons (c : Char) (rest : List Char) :
    takeChar c (c :: rest) = some rest := if_pos rfl

/-- Year, month and day at the head of a text. -/
def takeDateParts (cs : List Char) : Option ((Nat × Nat × Nat) × List Char) := do
  let (year, cs) ← takeNumber 4 4 cs
  let cs ← takeChar '-' cs
  let (month, cs) ← takeNumber 1 2 cs
  let cs ← takeChar '-' cs
  let (day, cs) ← takeNumber 1 2 cs
  return ((year, month, day), cs)

def microsOfFraction (ds : List Nat) : Nat :=
  let kept := ds.take 6
  number kept * Nat.pow 10 (6 - kept.length)

/-- The fraction of a second at the head of a text, if there is one, in microseconds. -/
def takeFraction (cs : List Char) : Option (Nat × List Char) :=
  match takeChar '.' cs with
  | none => some (0, cs)
  | some rest =>
    let ds := (rest.take 9).takeWhile isDigit
    if ds.isEmpty then none
    else some (microsOfFraction (ds.filterMap digit?), rest.drop ds.length)

/-- The second with its microseconds at the head of a text, if there is one. -/
def takeSecond (cs : List Char) : Option ((Nat × Nat) × List Char) :=
  match takeChar ':' cs with
  | none => some ((0, 0), cs)
  | some rest => do
    let (second, rest) ← takeNumber 2 2 rest
    let (micro, rest) ← takeFraction rest
    return ((second, micro), rest)

/-- Hour, minute, second and microsecond at the head of a text. -/
def takeTimeParts (cs : List Char) : Option ((Nat × Nat × Nat × Nat) × List Char) := do
  let (hour, cs) ← takeNumber 1 2 cs
  let cs ← takeChar ':' cs
  let (minute, cs) ← takeNumber 2 2 cs
  let ((second, micro), cs) ← takeSecond cs
  return ((hour, minute, second, micro), cs)

/-- What separates the date from the time: a letter T or blanks. -/
def takeSeparator : List Char → Option (List Char)
  | [] => none
  | c :: rest =>
    if c = 'T' ∨ c = 't' then some rest
    else if isBlank c then some (rest.dropWhile isBlank)
    else none

/-- The minutes of an offset, behind an optional colon. -/
def offsetMinutes? (cs : List Char) : Option Nat :=
  if cs.isEmpty then some 0
  else
    match takeNumber 2 2 ((takeChar ':' cs).getD cs) with
    | some (minutes, []) => some minutes
    | _ => none

/-- The offset from universal time that a whole text writes, in microseconds. -/
def offset? : List Char → Option Int
  | [] => some 0
  | ['Z'] => some 0
  | c :: rest =>
    if c = '+' ∨ c = '-' then do
      let (hours, rest) ← takeNumber 2 2 rest
      let minutes ← offsetMinutes? rest
      let micros : Int := ((hours * 60 + minutes) * 60 * 1000000 : Nat)
      return if c = '-' then -micros else micros
    else none

def dateText? (cs : List Char) : Option Date :=
  match takeDateParts cs with
  | some ((year, month, day), []) => Date.ofParts? year month day
  | _ => none

def timeText? (cs : List Char) : Option TimeOfDay :=
  match takeTimeParts cs with
  | some ((hour, minute, second, micro), []) => TimeOfDay.ofParts? hour minute second micro
  | _ => none

/-- The parts of a timestamp as a whole text writes them: the date, the time, and the offset in
microseconds. -/
def timestampParts? (cs : List Char) :
    Option ((Nat × Nat × Nat) × (Nat × Nat × Nat × Nat) × Int) := do
  let (date, cs) ← takeDateParts cs
  let cs ← takeSeparator cs
  let (time, cs) ← takeTimeParts cs
  let offset ← offset? (cs.dropWhile isBlank)
  return (date, time, offset)

/-- The timestamp that a whole text writes, in universal time. -/
def timestampText? (cs : List Char) : Option Timestamp := do
  let ((year, month, day), (hour, minute, second, micro), offset) ← timestampParts? cs
  let date ← Date.ofParts? year month day
  let time ← TimeOfDay.ofParts? hour minute second micro
  Timestamp.shift? ⟨date, time⟩ (-offset)

end Columnar.Scalar
