import Columnar.Number.Double

/-!
# Keywords among scalars

Some words stand for a truth value, for a number that no digits write, or for no value at all.
Upper and lower case are not told apart, except in `~`.
-/

namespace Columnar.Scalar

/-- The text with the letters A to Z in lower case. No keyword has a character whose capital form
lies beyond ASCII. -/
def lower (cs : List Char) : List Char := cs.map Char.toLower

def trueWords : List String := ["true", "yes", "on", "y", "t"]

def falseWords : List String := ["false", "no", "off", "n", "f"]

/-- The doubles that no digits write, by their words. -/
def doubleWords : List (String × Double) :=
  [("inf", .infinite false), ("infinity", .infinite false), ("-inf", .infinite true),
    ("-infinity", .infinite true), ("nan", .nan)]

def booleanWord? (cs : List Char) : Option Bool :=
  let word := String.ofList (lower cs)
  if word ∈ trueWords then some true
  else if word ∈ falseWords then some false
  else none

def doubleWord? (cs : List Char) : Option Double := doubleWords.lookup (String.ofList (lower cs))

/-- Does the text stand for no value? -/
def isNullWord (cs : List Char) : Bool :=
  cs = [] || cs = ['~'] || lower cs = ['n', 'u', 'l', 'l']

end Columnar.Scalar
