/-!
# Characters and positions of a YAML text

The classes of characters that the grammar tells apart, and positions in a text. A position is
described by its line and column and by a snippet of its line with a caret under the character.
The end of a text counts as the character U+0000, which no text contains.
-/

namespace Columnar.Yaml

/-- What stands behind the last character. -/
def endChar : Char := '\x00'

def isBreak (c : Char) : Bool :=
  c == '\n' || c == '\r' || c == '\x85' || c == '\u2028' || c == '\u2029'

def isBreakOrEnd (c : Char) : Bool := c == endChar || isBreak c

def isWhite (c : Char) : Bool := c == ' ' || c == '\t'

/-- What separates one lexeme from the next: white space, the end of a line or of the text. -/
def isGap (c : Char) : Bool := isWhite c || isBreakOrEnd c

def isAlphanumeric (c : Char) : Bool := c.isAlphanum

/-- The characters of names: letters and digits of ASCII, hyphen and underscore. -/
def isWord (c : Char) : Bool := c.isAlphanum || c == '-' || c == '_'

def isHex (c : Char) : Bool := c.isDigit || ('a' ≤ c && c ≤ 'f') || ('A' ≤ c && c ≤ 'F')

/-- May a text contain the character? -/
def isAcceptable (c : Char) : Bool :=
  let n := c.toNat
  n == 0x09 || n == 0x0A || n == 0x0D || (0x20 ≤ n && n ≤ 0x7E) || n == 0x85 ||
    (0xA0 ≤ n && n ≤ 0xD7FF) || (0xE000 ≤ n && n ≤ 0xFFFD) || 0x10000 ≤ n

/-- A position in a text: the number of characters before it, its line, and its column there. -/
structure Mark where
  index : Nat
  line : Nat
  column : Nat
deriving DecidableEq, Repr

namespace Mark

def sourceName : String := "<unicode string>"

/-- A snippet reaches to either side until it has passed this many characters. -/
def reach : Nat := 37

/-- How many of the characters passed are left out again when the line goes on. -/
def trimmed : Nat := 5

/-- The part of a line to one side that a snippet shows, given from the position outwards, and the
dots that stand for the rest. -/
def shown (side : List Char) : List Char × String :=
  let line := side.takeWhile fun c => !isBreakOrEnd c
  if line.length < reach then (line, "") else (line.take (reach - trimmed), " ... ")

/-- The line around a position and a caret under it. -/
def snippet (m : Mark) (source : List Char) : String :=
  let (before, head) := shown (source.take m.index).reverse
  let (after, tail) := shown (source.drop m.index)
  "    " ++ head ++ String.ofList before.reverse ++ String.ofList after ++ tail ++ "\n" ++
    String.ofList (List.replicate (4 + before.length + head.length) ' ') ++ "^"

/-- A position in words, with lines and columns counted from one, and its snippet. -/
def describe (m : Mark) (source : List Char) : String :=
  "  in \"" ++ sourceName ++ "\", line " ++ toString (m.line + 1) ++ ", column " ++
    toString (m.column + 1) ++ ":\n" ++ m.snippet source

end Mark

end Columnar.Yaml
