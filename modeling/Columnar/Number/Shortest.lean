import Columnar.Number.Double

/-!
# Shortest decimal digits

The digits that a double is written with are the fewest that read back as the same double. For one
digit, two digits and so on up to seventeen, the two neighbours of the magnitude on that decimal
grid are read back; the first grid with a hit wins, and of two hits the nearer one, a tie going to
the even digit. Seventeen digits always suffice; the exact decimal expansion stands behind them.
-/

namespace Columnar

/-- A positive decimal number, `coefficient · 10 ^ exponent`. -/
structure Decimal where
  coefficient : Nat
  exponent : Int
deriving DecidableEq, Repr

/-- The whole part of the decimal logarithm of a positive fraction that is a double's magnitude. -/
def log10Quotient (num den : Nat) : Int :=
  if den ≤ num then (Nat.toDigits 10 (num / den)).length - 1
  else
    match (List.range 400).find? fun k => den ≤ num * Nat.pow 10 (k + 1) with
    | some k => -(k + 1 : Int)
    | none => -400

namespace Magnitude

def readsBack (m : Magnitude) (d : Decimal) : Bool :=
  ofDecimal? d.coefficient d.exponent = some m

/-- The neighbour of the magnitude with `count` digits that reads back, the nearer one first. -/
def withDigits? (m : Magnitude) (log : Int) (count : Nat) : Option Decimal :=
  let e := log - count + 1
  let f := unscale 10 m.fraction.1 m.fraction.2 e
  let low : Decimal := ⟨f.1 / f.2, e⟩
  let high : Decimal := ⟨f.1 / f.2 + 1, e⟩
  let nearer := if roundQuotient f.1 f.2 = low.coefficient then [low, high] else [high, low]
  nearer.find? m.readsBack

def exactDecimal (m : Magnitude) : Decimal :=
  if 0 ≤ m.exponent then ⟨m.mantissa * Nat.pow 2 m.exponent.toNat, 0⟩
  else ⟨m.mantissa * Nat.pow 5 (-m.exponent).toNat, m.exponent⟩

/-- The shortest decimal number that reads back as the magnitude. -/
def shortest (m : Magnitude) : Decimal :=
  let log := log10Quotient m.fraction.1 m.fraction.2
  ((List.range 17).findSome? fun n => m.withDigits? log (n + 1)).getD m.exactDecimal

end Magnitude

end Columnar
