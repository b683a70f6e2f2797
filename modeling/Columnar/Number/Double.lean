/-!
# Double-precision numbers

A double is not a number, an infinity, or a sign with a magnitude m · 2^e. The magnitude has at
most 53 bits, its exponent lies between -1074 and 971, and its top bit is set unless the exponent
is the least one; so every double has one representation, and the two zeros differ in their sign
alone. Rational numbers are rounded to the nearest magnitude, ties to the even one, and overflow
beyond the largest magnitude.
-/

namespace Columnar

/-- The magnitude of a finite double, `mantissa · 2 ^ exponent`. -/
structure Magnitude where
  mantissa : Nat
  exponent : Int
  mantissa_lt : mantissa < Nat.pow 2 53
  exponent_ge : -1074 ≤ exponent
  exponent_le : exponent ≤ 971
  normal : Nat.pow 2 52 ≤ mantissa ∨ exponent = -1074
deriving DecidableEq, Repr

/-- A double-precision number. -/
inductive Double
  | nan
  | infinite (negative : Bool)
  | finite (negative : Bool) (magnitude : Magnitude)
deriving DecidableEq, Repr

/-- The quotient of two numbers rounded to the nearest one, a tie to the even one. -/
def roundQuotient (num den : Nat) : Nat :=
  let q := num / den
  let r := num % den
  if 2 * r < den then q
  else if den < 2 * r then q + 1
  else if q % 2 = 0 then q
  else q + 1

/-- The fraction `num / den / base ^ e`, with the power moved to where it is a whole number. -/
def unscale (base num den : Nat) (e : Int) : Nat × Nat :=
  if 0 ≤ e then (num, den * base.pow e.toNat) else (num * base.pow (-e).toNat, den)

/-- The whole part of the binary logarithm of a positive fraction. -/
def log2Quotient (num den : Nat) : Int :=
  let k : Int := (Nat.log2 num : Int) - Nat.log2 den
  let f := unscale 2 num den k
  if f.2 ≤ f.1 then k else k - 1

namespace Magnitude

def zero : Magnitude := ⟨0, -1074, by decide, by decide, by decide, .inr rfl⟩

/-- The magnitude with this mantissa and exponent, if they are in range; a mantissa of 54 bits
that is the power of two is moved to the next exponent first. -/
def ofScaled? (m : Nat) (e : Int) : Option Magnitude :=
  let (m, e) := if m = Nat.pow 2 53 then (Nat.pow 2 52, e + 1) else (m, e)
  if h : m < Nat.pow 2 53 ∧ -1074 ≤ e ∧ e ≤ 971 ∧ (Nat.pow 2 52 ≤ m ∨ e = -1074) then
    some ⟨m, e, h.1, h.2.1, h.2.2.1, h.2.2.2⟩
  else none

/-- The magnitude nearest to a fraction; none beyond the range. -/
def round? (num den : Nat) : Option Magnitude :=
  if num = 0 then some zero
  else
    let e := max (-1074) (log2Quotient num den - 52)
    let f := unscale 2 num den e
    ofScaled? (roundQuotient f.1 f.2) e

/-- The magnitude nearest to `coefficient · 10 ^ exponent`. Since 10 > 2 ^ 3, a large power of ten
is beyond the range and a small one below half of the least magnitude, and neither is computed. -/
def ofDecimal? (coefficient : Nat) (exponent : Int) : Option Magnitude :=
  if coefficient = 0 then some zero
  else if 0 ≤ exponent then
    if 1024 ≤ (Nat.log2 coefficient : Int) + 3 * exponent then none
    else round? (coefficient * Nat.pow 10 exponent.toNat) 1
  else if (Nat.log2 coefficient : Int) + 1 + 3 * exponent ≤ -1075 then some zero
  else round? coefficient (Nat.pow 10 (-exponent).toNat)

def fraction (m : Magnitude) : Nat × Nat :=
  if 0 ≤ m.exponent then (m.mantissa * Nat.pow 2 m.exponent.toNat, 1)
  else (m.mantissa, Nat.pow 2 (-m.exponent).toNat)

/-- The magnitude as a whole number, if it is one. -/
def toNat? (m : Magnitude) : Option Nat :=
  let f := m.fraction
  if f.1 % f.2 = 0 then some (f.1 / f.2) else none

end Magnitude

namespace Double

/-- The double nearest to `± coefficient · 10 ^ exponent`, infinite beyond the range. -/
def ofDecimal (negative : Bool) (coefficient : Nat) (exponent : Int) : Double :=
  match Magnitude.ofDecimal? coefficient exponent with
  | some m => .finite negative m
  | none => .infinite negative

/-- The double as an integer, if it is finite and whole. -/
def toInt? : Double → Option Int
  | .finite negative m => m.toNat?.map fun n => if negative then -(n : Int) else n
  | _ => none

end Double

end Columnar
