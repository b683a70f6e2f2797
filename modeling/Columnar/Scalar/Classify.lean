import Columnar.ColumnType
import Columnar.Scalar.Keyword
import Columnar.Scalar.Literal
import Columnar.Scalar.Temporal

/-!
# What a scalar means

The text of a scalar, trimmed, is read as a truth value, an integer, a double, a date, a time or a
timestamp; each reader answers none when the text is no such value. `Scalar.classify` is the
narrowest type of a text: the first reader that accepts, in a fixed order, decides.
-/

namespace Columnar.Scalar

open Text

/-- The characters of a text without the blanks around it. -/
def core (text : String) : List Char := trim text.toList

/-- An integer literal longer than this, a sign and the 19 digits of 2^63, is read as a double. -/
def integerLengthLimit : Nat := 20

/-- The integer that a short literal writes exactly. -/
def exactInteger? (cs : List Char) : Option Int :=
  if cs.length ≤ integerLengthLimit then integerLiteral? cs else none

/-- The double nearest to the number that a literal writes. -/
def literalDouble? (cs : List Char) : Option Double :=
  (Literal.ofChars? cs).map fun l => Double.ofDecimal l.negative l.coefficient l.exponent

def boolean? (text : String) : Option Bool := booleanWord? (core text)

/-- The integer that a text writes; a literal that is not a short integer counts if the double
nearest to it is whole. -/
def integer? (text : String) : Option Int :=
  match exactInteger? (core text) with
  | some n => some n
  | none => (literalDouble? (core text)).bind Double.toInt?

def double? (text : String) : Option Double :=
  match doubleWord? (core text) with
  | some d => some d
  | none => literalDouble? (core text)

def date? (text : String) : Option Date := dateText? (core text)

def time? (text : String) : Option TimeOfDay := timeText? (core text)

/-- The timestamp that a text writes, in universal time. -/
def timestamp? (text : String) : Option Timestamp := timestampText? (core text)

/-- Only a text with a colon, a capital T, or a hyphen behind its first character is looked at as
a date or time. -/
def looksTemporal (cs : List Char) : Bool :=
  cs.contains ':' || cs.contains 'T' || (cs.drop 1).contains '-'

/-- The type of a text as a date or time, if it is one. -/
def temporalType? (cs : List Char) : Option ColumnType :=
  if !looksTemporal cs then none
  else if (dateText? cs).isSome then some .date
  else if (timestampText? cs).isSome then some .timestamp
  else if (timeText? cs).isSome then some .time
  else none

def integerType? (cs : List Char) : Option ColumnType :=
  ((exactInteger? cs).bind Width.ofInt?).map .integer

/-- The type of a number that is no short integer: whole numbers of 64 bits are integers. -/
def doubleType (d : Double) : ColumnType :=
  match d.toInt? with
  | some n => if Width.w64.Holds n then .integer .w64 else .double
  | none => .double

/-- The narrowest type of a scalar text. -/
def classify (text : String) : ColumnType :=
  let cs := core text
  if isNullWord cs then .null
  else if (booleanWord? cs).isSome then .boolean
  else
    match temporalType? cs with
    | some t => t
    | none =>
      if (doubleWord? cs).isSome then .double
      else
        match integerType? cs with
        | some t => t
        | none =>
          match literalDouble? cs with
          | some d => doubleType d
          | none => .string

end Columnar.Scalar
