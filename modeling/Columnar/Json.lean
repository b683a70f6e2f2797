import Columnar.Number.Notation
import Columnar.Record
import Columnar.Text.Quoted

/-!
# JSON values and their compact text

The values that JSON can carry. A double that is no number or infinite has no JSON text, so the
type holds finite doubles only, a sign with a magnitude. The text is compact, keeps the order of
names and items, and escapes in strings only the quote, the backslash and control characters.
-/

namespace Columnar

/-- A JSON value. -/
inductive Json
  | null
  | boolean (b : Bool)
  | integer (n : Int)
  | double (negative : Bool) (magnitude : Magnitude)
  | string (s : String)
  | array (items : List Json)
  | object (entries : List (String × Json))

namespace Json

def escape (c : Char) : List Char :=
  if c = '"' then ['\\', '"']
  else if c = '\\' then ['\\', '\\']
  else if c = '\n' then ['\\', 'n']
  else if c = '\r' then ['\\', 'r']
  else if c = '\t' then ['\\', 't']
  else if c = '\x08' then ['\\', 'b']
  else if c = '\x0c' then ['\\', 'f']
  else if c.toNat < 0x20 then '\\' :: 'u' :: Text.hex 4 c.toNat
  else [c]

def stringText (s : String) : List Char := '"' :: s.toList.flatMap escape ++ ['"']

mutual

def text : Json → List Char
  | .null => ['n', 'u', 'l', 'l']
  | .boolean true => ['t', 'r', 'u', 'e']
  | .boolean false => ['f', 'a', 'l', 's', 'e']
  | .integer n => integerText n
  | .double negative m => Double.text (.finite negative m)
  | .string s => stringText s
  | .array items => '[' :: itemsText items ++ [']']
  | .object entries => '{' :: entriesText entries ++ ['}']

def itemsText : List Json → List Char
  | [] => []
  | [v] => text v
  | v :: w :: rest => text v ++ ',' :: itemsText (w :: rest)

/-- Entries with commas between them, each a name, a colon and a value. -/
def entriesText : List (String × Json) → List Char
  | [] => []
  | [(name, v)] => stringText name ++ ':' :: text v
  | (name, v) :: next :: rest =>
    stringText name ++ ':' :: text v ++ ',' :: entriesText (next :: rest)

end

end Json

end Columnar
