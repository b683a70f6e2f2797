import Columnar.Number.Notation

/-!
# Times of day

A time of day counts hours, minutes, seconds and microseconds. There are no leap seconds.
-/

namespace Columnar

/-- A time of day. -/
structure TimeOfDay where
  hour : Nat
  minute : Nat
  second : Nat
  micro : Nat
  hour_lt : hour < 24
  minute_lt : minute < 60
  second_lt : second < 60
  micro_lt : micro < 1000000
deriving DecidableEq, Repr

namespace TimeOfDay

/-- The time with these parts, if there is one. -/
def ofParts? (hour minute second micro : Nat) : Option TimeOfDay :=
  if h : hour < 24 ∧ minute < 60 ∧ second < 60 ∧ micro < 1000000 then
    some ⟨hour, minute, second, micro, h.1, h.2.1, h.2.2.1, h.2.2.2⟩
  else none

/-- The microseconds since midnight. -/
def micros (t : TimeOfDay) : Nat :=
  ((t.hour * 60 + t.minute) * 60 + t.second) * 1000000 + t.micro

/-- The time of day so many microseconds after a midnight. -/
def ofMicros (n : Nat) : TimeOfDay where
  hour := n / 3600000000 % 24
  minute := n / 60000000 % 60
  second := n / 1000000 % 60
  micro := n % 1000000
  hour_lt := Nat.mod_lt _ (by decide)
  minute_lt := Nat.mod_lt _ (by decide)
  second_lt := Nat.mod_lt _ (by decide)
  micro_lt := Nat.mod_lt _ (by decide)

/-- Hour, minute and second with two digits each; six digits of a fraction unless it is zero. -/
def text (t : TimeOfDay) : List Char :=
  padded 2 t.hour ++ ':' :: padded 2 t.minute ++ ':' :: padded 2 t.second ++
    (if t.micro = 0 then [] else '.' :: padded 6 t.micro)

theorem micros_ofMicros (n : Nat) : (ofMicros n).micros = n % 86400000000 := by
  simp only [micros, ofMicros]
  omega

theorem micros_lt (t : TimeOfDay) : t.micros < 86400000000 := by
  have := t.hour_lt
  have := t.minute_lt
  have := t.second_lt
  have := t.micro_lt
  simp only [micros]
  omega

end TimeOfDay

end Columnar
