import Columnar.Text.Digit

/-!
# Number literals

A number is written as an optional sign, digits with at most one point among or around them, and
an optional exponent. A literal stands for the rational number ± coefficient · 10 ^ exponent; what
is made of it, an integer or a double, is decided elsewhere. An integer literal is a sign and
digits only. Digits of every script are accepted, signs, point and exponent letter are ASCII.
-/

namespace Columnar.Scalar

open Text

/-- The number that a literal writes, `± coefficient · 10 ^ exponent`. -/
structure Literal where
  negative : Bool
  coefficient : Nat
  exponent : Int
deriving DecidableEq, Repr

/-- The sign at the head of a text, negative or not, and the text behind it. -/
def spanSign : List Char → Bool × List Char
  | '+' :: rest => (false, rest)
  | '-' :: rest => (true, rest)
  | cs => (false, cs)

def signed (negative : Bool) (n : Nat) : Int := if negative then -(n : Int) else n

/-- The integer that a sign and digits write. -/
def integerLiteral? (cs : List Char) : Option Int :=
  let (negative, rest) := spanSign cs
  let (ds, rest) := spanDigits rest
  if ds.isEmpty || !rest.isEmpty then none else some (signed negative (number ds))

/-- The digits behind a point at the head of a text, if there is a point. -/
def spanFraction : List Char → Option (List Nat) × List Char
  | '.' :: rest => (some (spanDigits rest).1, (spanDigits rest).2)
  | cs => (none, cs)

/-- The exponent that a whole text writes; no text is no exponent. -/
def exponent? : List Char → Option Int
  | [] => some 0
  | c :: rest => if c = 'e' ∨ c = 'E' then integerLiteral? rest else none

/-- The literal that a whole text writes. -/
def Literal.ofChars? (cs : List Char) : Option Literal :=
  let (negative, rest) := spanSign cs
  let (whole, rest) := spanDigits rest
  let (fraction, rest) := spanFraction rest
  let digits := whole ++ fraction.getD []
  if digits.isEmpty then none
  else
    (exponent? rest).map fun e =>
      { negative, coefficient := number digits, exponent := e - (fraction.getD []).length }

end Columnar.Scalar
