import Columnar.Number.Shortest

/-!
# The text of numbers

A double is written by its shortest digits. With the first digit standing for 10^e, the text is
positional when -4 ≤ e < 16 and always has a point; otherwise it is scientific, the exponent with
a sign and at least two digits. Integers are written in base ten.
-/

namespace Columnar

def decimalDigits (n : Nat) : List Char := Nat.toDigits 10 n

def integerText : Int → List Char
  | .ofNat n => decimalDigits n
  | .negSucc n => '-' :: decimalDigits (n + 1)

def padded (width n : Nat) : List Char :=
  List.replicate (width - (decimalDigits n).length) '0' ++ decimalDigits n

namespace Decimal

/-- Digits without the zeros at their end; a zero keeps one digit. -/
def significant (ds : List Char) : List Char :=
  match (ds.reverse.dropWhile (· == '0')).reverse with
  | [] => ['0']
  | kept => kept

/-- Digits with a point behind the digit for 10^0, the first digit standing for 10^e. -/
def positional (ds : List Char) (e : Int) : List Char :=
  if e < 0 then '0' :: '.' :: List.replicate (-e - 1).toNat '0' ++ ds
  else
    let whole := ds.take (e.toNat + 1)
    let fraction := ds.drop (e.toNat + 1)
    whole ++ List.replicate (e.toNat + 1 - whole.length) '0' ++
      '.' :: (if fraction.isEmpty then ['0'] else fraction)

/-- Digits with a point behind the first one, and the exponent of that digit. -/
def scientific (ds : List Char) (e : Int) : List Char :=
  let fraction := ds.drop 1
  ds.take 1 ++ (if fraction.isEmpty then [] else '.' :: fraction) ++
    'e' :: (if e < 0 then '-' else '+') :: padded 2 e.natAbs

def text (d : Decimal) : List Char :=
  let ds := decimalDigits d.coefficient
  let e : Int := d.exponent + ds.length - 1
  if -4 ≤ e ∧ e < 16 then positional (significant ds) e else scientific (significant ds) e

end Decimal

namespace Double

def text : Double → List Char
  | .nan => ['n', 'a', 'n']
  | .infinite negative => (if negative then ['-'] else []) ++ ['i', 'n', 'f']
  | .finite negative m =>
    (if negative then ['-'] else []) ++
      (if m.mantissa = 0 then ['0', '.', '0'] else m.shortest.text)

end Double

end Columnar
