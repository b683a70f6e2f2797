import Columnar.Json
import Columnar.Scalar.Classify
import Columnar.Tree

/-!
# The canonical form of a document

A document means one JSON value, and so one JSON text, whatever way its scalars are written. A
scalar becomes what its type says: truth values and numbers become JSON's own, dates and times
become strings in ISO form, and a double that is infinite or no number becomes a string, as JSON
has no such numbers. All other text stays as it is.
-/

namespace Columnar

namespace Double

def toJson : Double → Json
  | .nan => .string "NaN"
  | .infinite false => .string "Infinity"
  | .infinite true => .string "-Infinity"
  | .finite negative m => .double negative m

end Double

namespace Scalar

/-- The JSON value of a text that a reader has read, or the text itself. -/
def readAs {α : Type} (text : String) (read : String → Option α) (encode : α → Json) : Json :=
  (read text).elim (.string text) encode

def toJson (text : String) : Json :=
  match classify text with
  | .null => .null
  | .boolean => readAs text boolean? .boolean
  | .integer _ => readAs text integer? .integer
  | .double => readAs text double? Double.toJson
  | .date => readAs text date? fun d => .string (String.ofList d.text)
  | .time => readAs text time? fun t => .string (String.ofList t.text)
  | .timestamp => readAs text timestamp? fun t => .string (String.ofList t.text)
  | _ => .string text

end Scalar

namespace Tree

mutual

def toJson : Tree → Json
  | .null => .null
  | .scalar text => Scalar.toJson text
  | .sequence items => .array (itemsToJson items)
  | .map entries => .object (Record.ofEntries (entriesToJson entries))

def itemsToJson : List Tree → List Json
  | [] => []
  | t :: rest => toJson t :: itemsToJson rest

def entriesToJson : List (String × Tree) → List (String × Json)
  | [] => []
  | (key, t) :: rest => (key, toJson t) :: entriesToJson rest

end

def jsonText (t : Tree) : String := String.ofList t.toJson.text

end Tree

end Columnar
