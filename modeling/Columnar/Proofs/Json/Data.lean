import Columnar.Datum
import Columnar.Json

/-!
# JSON values among decoded data

Decoded data is written as JSON text if JSON has a kind for every value in it; a double that is
infinite or no number has none. A JSON value is decoded data of which none is refused. Main
statement: written as such it has the text of the value.
-/

namespace Columnar

mutual

/-- A JSON value as decoded data. -/
def Json.toDatum : Json → Datum
  | .null => .null
  | .boolean b => .boolean b
  | .integer n => .integer n
  | .double negative m => .double (.finite negative m)
  | .string s => .text s
  | .array items => .list (Json.itemsToData items)
  | .object entries => .dict (Json.entriesToData entries)

def Json.itemsToData : List Json → List Datum
  | [] => []
  | v :: rest => Json.toDatum v :: Json.itemsToData rest

def Json.entriesToData : List (String × Json) → List (Datum × Datum)
  | [] => []
  | (key, v) :: rest => (.text key, Json.toDatum v) :: Json.entriesToData rest

end

namespace Double

/-- The JSON text of a double, if it is a finite one. -/
def jsonText? (d : Double) : Option (List Char) :=
  match d with
  | .finite _ _ => some d.text
  | _ => none

end Double

namespace Datum

/-- The name that a key becomes in JSON, if it is a text, a number, a truth value or none. -/
def jsonName? : Datum → Option String
  | .text s => some s
  | .null => some "null"
  | .boolean b => some (if b then "true" else "false")
  | .integer n => some (String.ofList (integerText n))
  | .double d => d.jsonText?.map String.ofList
  | _ => none

mutual

/-- The compact JSON text of decoded data, if JSON has a kind for every value in it. -/
def jsonText? : Datum → Option (List Char)
  | .null => some ['n', 'u', 'l', 'l']
  | .boolean b => some (if b then ['t', 'r', 'u', 'e'] else ['f', 'a', 'l', 's', 'e'])
  | .integer n => some (integerText n)
  | .double d => d.jsonText?
  | .text s => some (Json.stringText s)
  | .list items | .tuple items => do return '[' :: (← itemsJsonText? items) ++ [']']
  | .dict entries => do return '{' :: (← entriesJsonText? entries) ++ ['}']
  | .date _ | .time _ _ | .timestamp _ _ | .unsupported _ => none

def itemsJsonText? : List Datum → Option (List Char)
  | [] => some []
  | [v] => jsonText? v
  | v :: w :: rest => do
    let first ← jsonText? v
    let others ← itemsJsonText? (w :: rest)
    return first ++ ',' :: others

def entriesJsonText? : List (Datum × Datum) → Option (List Char)
  | [] => some []
  | [(key, v)] => do
    let name ← jsonName? key
    let first ← jsonText? v
    return Json.stringText name ++ ':' :: first
  | (key, v) :: next :: rest => do
    let name ← jsonName? key
    let first ← jsonText? v
    let others ← entriesJsonText? (next :: rest)
    return Json.stringText name ++ ':' :: first ++ ',' :: others

end

end Datum

namespace Json

mutual

/-- Nothing in a JSON value is refused, no double in particular. -/
theorem jsonText?_toDatum : ∀ v : Json, v.toDatum.jsonText? = some v.text
  | .null => by rw [toDatum, Datum.jsonText?, text]
  | .boolean true => by rw [toDatum, Datum.jsonText?, text]; rfl
  | .boolean false => by rw [toDatum, Datum.jsonText?, text]; rfl
  | .integer n => by rw [toDatum, Datum.jsonText?, text]
  | .double negative m => by rw [toDatum, Datum.jsonText?, text]; rfl
  | .string s => by rw [toDatum, Datum.jsonText?, text]
  | .array items => by
    rw [toDatum, Datum.jsonText?, itemsJsonText?_itemsToData items, text]
    rfl
  | .object entries => by
    rw [toDatum, Datum.jsonText?, entriesJsonText?_entriesToData entries, text]
    rfl

theorem itemsJsonText?_itemsToData :
    ∀ items : List Json, Datum.itemsJsonText? (itemsToData items) = some (itemsText items)
  | [] => by rw [itemsToData, Datum.itemsJsonText?, itemsText]
  | [v] => by
    rw [itemsToData, itemsToData, Datum.itemsJsonText?, jsonText?_toDatum v, itemsText]
  | v :: w :: rest => by
    have hrest := itemsJsonText?_itemsToData (w :: rest)
    rw [itemsToData] at hrest
    rw [itemsToData, itemsToData, Datum.itemsJsonText?, jsonText?_toDatum v, hrest, itemsText]
    rfl

theorem entriesJsonText?_entriesToData : ∀ entries : List (String × Json),
    Datum.entriesJsonText? (entriesToData entries) = some (entriesText entries)
  | [] => by rw [entriesToData, Datum.entriesJsonText?, entriesText]
  | [(key, v)] => by
    rw [entriesToData, entriesToData, Datum.entriesJsonText?, jsonText?_toDatum v, entriesText]
    rfl
  | (key, v) :: (key', w) :: rest => by
    have hrest := entriesJsonText?_entriesToData ((key', w) :: rest)
    rw [entriesToData] at hrest
    rw [entriesToData, entriesToData, Datum.entriesJsonText?, jsonText?_toDatum v, hrest,
      entriesText]
    rfl

end

end Json

end Columnar
