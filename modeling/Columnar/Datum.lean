import Columnar.Time.Timestamp
import Columnar.Text.Quoted
import Columnar.Tree

/-!
# Documents from decoded data

Data that was decoded elsewhere becomes a document again: every scalar is rendered to text, so
that it is classified the same way as one read from a document. A dictionary may have keys of any
scalar kind, or tuples, which become their display text. Keys that render alike collapse to one.
Values of a kind that no document has are refused.
-/

namespace Columnar

/-- Decoded data. Offsets from universal time are counted in microseconds. -/
inductive Datum
  | null
  | boolean (b : Bool)
  | integer (n : Int)
  | double (d : Double)
  | text (s : String)
  | date (d : Date)
  | time (t : TimeOfDay) (offset : Option Int)
  | timestamp (t : Timestamp) (offset : Option Int)
  | list (items : List Datum)
  | tuple (items : List Datum)
  | dict (entries : List (Datum × Datum))
  | unsupported (kind : String)

/-- A value of a kind that no document has. -/
structure UnsupportedKind where
  kind : String
deriving DecidableEq, Repr

def UnsupportedKind.message (e : UnsupportedKind) : String :=
  "Unsupported value type: <class '" ++ e.kind ++ "'>"

namespace Offset

/-- An offset as hours and minutes with a sign, and seconds and their fraction if there are any. -/
def text (offset : Int) : List Char :=
  let t := TimeOfDay.ofMicros offset.natAbs
  (if offset < 0 then '-' else '+') :: padded 2 t.hour ++ ':' :: padded 2 t.minute ++
    (if t.second = 0 ∧ t.micro = 0 then []
    else ':' :: padded 2 t.second ++ (if t.micro = 0 then [] else '.' :: padded 6 t.micro))

/-- An offset as the display of a time names it: days, seconds and microseconds, none negative
but the days, those that are zero left out. -/
def display (offset : Int) : String :=
  if offset = 0 then "datetime.timezone.utc"
  else
    let days := offset / 86400000000
    let seconds := offset % 86400000000 / 1000000
    let micros := offset % 1000000
    let parts := [("days=", days), ("seconds=", seconds), ("microseconds=", micros)].filterMap
      fun p => if p.2 = 0 then none else some (p.1 ++ String.ofList (integerText p.2))
    "datetime.timezone(datetime.timedelta(" ++ String.intercalate ", " parts ++ "))"

end Offset

namespace Datum

/-- Numbers as the arguments of a displayed value, with the offset behind them. -/
def displayCall (name : String) (parts : List Nat) (offset : Option Int) : String :=
  let shown := parts.map (fun n => String.ofList (decimalDigits n)) ++
    (offset.map fun o => "tzinfo=" ++ Offset.display o).toList
  "datetime." ++ name ++ "(" ++ String.intercalate ", " shown ++ ")"

/-- Hour and minute, and seconds and microseconds as far as they are not zero. -/
def timeParts (t : TimeOfDay) : List Nat :=
  [t.hour, t.minute] ++
    (if t.micro ≠ 0 then [t.second, t.micro] else if t.second ≠ 0 then [t.second] else [])

mutual

/-- A value as it is displayed inside a tuple. -/
def display : Datum → String
  | .null => "None"
  | .boolean b => if b then "True" else "False"
  | .integer n => String.ofList (integerText n)
  | .double d => String.ofList d.text
  | .text s => Text.quoted s
  | .date d => displayCall "date" [d.year, d.month, d.day] none
  | .time t offset => displayCall "time" (timeParts t) offset
  | .timestamp t offset =>
    displayCall "datetime" ([t.date.year, t.date.month, t.date.day] ++ timeParts t.time) offset
  | .list items => "[" ++ displayItems items ++ "]"
  | .tuple [item] => "(" ++ display item ++ ",)"
  | .tuple items => "(" ++ displayItems items ++ ")"
  | .dict entries => "\x7b" ++ displayEntries entries ++ "\x7d"
  | .unsupported kind => kind

def displayItems : List Datum → String
  | [] => ""
  | [item] => display item
  | item :: next :: rest => display item ++ ", " ++ displayItems (next :: rest)

def displayEntries : List (Datum × Datum) → String
  | [] => ""
  | [(key, value)] => display key ++ ": " ++ display value
  | (key, value) :: next :: rest =>
    display key ++ ": " ++ display value ++ ", " ++ displayEntries (next :: rest)

end

/-- The name that a key stands for: its text if it is a scalar, else its display. -/
def keyName (key : Datum) (built : Tree) : String :=
  match built with
  | .null => "null"
  | .scalar s => s
  | _ => key.display

mutual

/-- The document that a value describes. -/
def toTree : Datum → Except UnsupportedKind Tree
  | .null => .ok .null
  | .boolean b => .ok (.scalar (if b then "true" else "false"))
  | .integer n => .ok (.scalar (String.ofList (integerText n)))
  | .double d => .ok (.scalar (String.ofList d.text))
  | .text s => .ok (.scalar s)
  | .date d => .ok (.scalar (String.ofList d.text))
  | .time t offset => .ok (.scalar (String.ofList (t.text ++ offset.elim [] Offset.text)))
  | .timestamp t offset => .ok (.scalar (String.ofList (t.text ++ offset.elim [] Offset.text)))
  | .list items | .tuple items => do return .sequence (← itemsToTrees items)
  | .dict entries => do return Tree.mapOf (← entriesToTrees entries)
  | .unsupported kind => .error ⟨kind⟩

def itemsToTrees : List Datum → Except UnsupportedKind (List Tree)
  | [] => .ok []
  | item :: rest => do
    let t ← toTree item
    let ts ← itemsToTrees rest
    return t :: ts

def entriesToTrees : List (Datum × Datum) → Except UnsupportedKind (List (String × Tree))
  | [] => .ok []
  | (key, value) :: rest => do
    let name := keyName key (← toTree key)
    let t ← toTree value
    let ts ← entriesToTrees rest
    return (name, t) :: ts

end

end Datum

end Columnar
