import Columnar.Text.Printable

/-!
# Quoted text in messages

Messages show a text between quotes. The quote is the single one, unless the text holds a single
quote and no double one. Backslashes, the quote in use and characters that cannot be printed are
escaped; a character without a short escape is written by its code point in two, four or eight
hexadecimal digits, whichever first suffices.
-/

namespace Columnar.Text

/-- A number in hexadecimal, filled with zeros to a width. -/
def hex (width n : Nat) : List Char :=
  let ds := Nat.toDigits 16 n
  List.replicate (width - ds.length) '0' ++ ds

def escapeByCode (n : Nat) : List Char :=
  if n < 0x100 then '\\' :: 'x' :: hex 2 n
  else if n < 0x10000 then '\\' :: 'u' :: hex 4 n
  else '\\' :: 'U' :: hex 8 n

def escapeChar (quote c : Char) : List Char :=
  if c = quote ∨ c = '\\' then ['\\', c]
  else if c = '\n' then ['\\', 'n']
  else if c = '\r' then ['\\', 'r']
  else if c = '\t' then ['\\', 't']
  else if isPrintable c then [c]
  else escapeByCode c.toNat

/-- The quote that a text is shown in. -/
def quoteFor (cs : List Char) : Char := if '\x27' ∈ cs ∧ '"' ∉ cs then '"' else '\x27'

def quotedChars (cs : List Char) : List Char :=
  quoteFor cs :: cs.flatMap (escapeChar (quoteFor cs)) ++ [quoteFor cs]

/-- A text as messages show it. -/
def quoted (s : String) : String := String.ofList (quotedChars s.toList)

def quotedChar (c : Char) : String := String.ofList (quotedChars [c])

end Columnar.Text
