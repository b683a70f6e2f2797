import Columnar.Record
import Columnar.Number.Notation
import Columnar.Number.Width

/-!
# Column types

The type of a column, or of a value nested in one. Lists have one element type and structs have
named fields in an order. Fields are looked up by name, the first of a name being found, and
equality of types is agreement: structs agree when they agree at every name, whatever the order.
`ColumnType.structOf` builds structs whose names are distinct; only `ColumnType.ofParts`, which
checks the parts of a type handed over one by one, lets a name repeat.
-/

namespace Columnar

/-- The shape of a value. `null` is the type of a column without any value so far, and `any` that
of values kept as text of their document. -/
inductive ColumnType
  | null
  | boolean
  | integer (width : Width)
  | double
  | date
  | time
  | timestamp
  | string
  | list (element : ColumnType)
  | struct (fields : List (String × ColumnType))
  | any
deriving Repr, Inhabited

namespace ColumnType

/-- The variants of a type, without their parts. -/
inductive Kind
  | null
  | boolean
  | integer
  | double
  | date
  | time
  | timestamp
  | string
  | list
  | struct
  | any
deriving DecidableEq, Repr

def kind : ColumnType → Kind
  | .null => .null
  | .boolean => .boolean
  | .integer _ => .integer
  | .double => .double
  | .date => .date
  | .time => .time
  | .timestamp => .timestamp
  | .string => .string
  | .list _ => .list
  | .struct _ => .struct
  | .any => .any

/-- The struct with these fields; a repeated name keeps its first position and its last type. -/
def structOf (fields : List (String × ColumnType)) : ColumnType :=
  .struct (Record.ofEntries fields)

/-- The fields of a struct; no other type has any. -/
def fields : ColumnType → List (String × ColumnType)
  | .struct fs => fs
  | _ => []

/-- The names of the fields, in order. -/
def fieldNames (t : ColumnType) : List String := Record.names t.fields

def field? (name : String) (t : ColumnType) : Option ColumnType := Record.get? name t.fields

def isNumeric : ColumnType → Bool
  | .integer _ | .double => true
  | _ => false

def isNested : ColumnType → Bool
  | .list _ | .struct _ => true
  | _ => false

/-! ## Agreement -/

mutual

/-- Are two types equal, the order of fields aside? Of fields with one name the last counts. -/
def agrees : ColumnType → ColumnType → Bool
  | .null, .null => true
  | .boolean, .boolean => true
  | .integer v, .integer w => v == w
  | .double, .double => true
  | .date, .date => true
  | .time, .time => true
  | .timestamp, .timestamp => true
  | .string, .string => true
  | .list s, .list t => agrees s t
  | .struct fs, .struct gs =>
    agreesAt fs gs && gs.all fun g => (Record.names fs).contains g.1
  | .any, .any => true
  | _, _ => false

/-- Does the last field of each name agree with the last field of that name on the other side? -/
def agreesAt : List (String × ColumnType) → List (String × ColumnType) → Bool
  | [], _ => true
  | (name, t) :: rest, gs =>
    ((Record.names rest).contains name ||
      match Record.get? name gs.reverse with
      | some u => agrees t u
      | none => false) &&
    agreesAt rest gs

end

/-! ## Display -/

/-- The name of a variant in lower case. -/
def Kind.text : Kind → String
  | .null => "null"
  | .boolean => "boolean"
  | .integer => "integer"
  | .double => "double"
  | .date => "date"
  | .time => "time"
  | .timestamp => "timestamp"
  | .string => "string"
  | .list => "list"
  | .struct => "struct"
  | .any => "any"

mutual

def text : ColumnType → String
  | .null => "Null"
  | .boolean => "Boolean"
  | .integer w => "Integer" ++ String.ofList (decimalDigits w.bits)
  | .double => "Double"
  | .date => "Date"
  | .time => "Time"
  | .timestamp => "Timestamp"
  | .string => "String"
  | .list t => "List(" ++ text t ++ ")"
  | .struct fs => "Struct\x7b" ++ fieldsText fs ++ "\x7d"
  | .any => "Any"

/-- Fields, each a name with its type, separated by commas. -/
def fieldsText : List (String × ColumnType) → String
  | [] => ""
  | [(name, t)] => name ++ ": " ++ text t
  | (name, t) :: next :: rest => name ++ ": " ++ text t ++ ", " ++ fieldsText (next :: rest)

end

/-! ## Types from parts -/

/-- Why parts make no type. -/
inductive PartsError
  /-- An integer needs one of the four widths. -/
  | integerWidth (width : Option Int)
  /-- Only an integer has a width. -/
  | widthOf (kind : Kind)
  /-- Lists have an element type and nothing else has one. -/
  | element
  /-- Only structs have fields. -/
  | fieldsOf (kind : Kind)
deriving DecidableEq, Repr

def PartsError.message : PartsError → String
  | .integerWidth width =>
    let shown := match width with
      | some n => String.ofList (integerText n)
      | none => "None"
    "integer width must be one of (8, 16, 32, 64), got " ++ shown
  | .widthOf kind => "width is only valid for integers, got " ++ kind.text
  | .element => "element type is required for lists and invalid otherwise"
  | .fieldsOf kind => "fields are only valid for structs, got " ++ kind.text

/-- The type made of a variant and its parts. The fields are taken as they are, so a name may
repeat. -/
def ofParts (kind : Kind) (width : Option Int) (element : Option ColumnType)
    (fields : List (String × ColumnType)) : Except PartsError ColumnType :=
  let checked : Except PartsError (Option Width) :=
    match kind, width with
    | .integer, none => .error (.integerWidth none)
    | .integer, some n =>
      match Width.ofBits? n with
      | some w => .ok (some w)
      | none => .error (.integerWidth (some n))
    | _, none => .ok none
    | _, some _ => .error (.widthOf kind)
  match checked with
  | .error e => .error e
  | .ok width =>
    if (kind == .list) != element.isSome then .error .element
    else if kind != .struct && !fields.isEmpty then .error (.fieldsOf kind)
    else
      match kind, width, element with
      | .integer, some w, _ => .ok (.integer w)
      | .integer, none, _ => .error (.integerWidth none)
      | .list, _, some t => .ok (.list t)
      | .list, _, none => .error .element
      | .struct, _, _ => .ok (.struct fields)
      | .null, _, _ => .ok .null
      | .boolean, _, _ => .ok .boolean
      | .double, _, _ => .ok .double
      | .date, _, _ => .ok .date
      | .time, _, _ => .ok .time
      | .timestamp, _, _ => .ok .timestamp
      | .string, _, _ => .ok .string
      | .any, _, _ => .ok .any

/-! ## Well-formed types -/

mutual

/-- No struct inside the type names a field twice. -/
def Distinct : ColumnType → Prop
  | .list t => Distinct t
  | .struct fs => Record.Distinct fs ∧ AllDistinct fs
  | _ => True

def AllDistinct : List (String × ColumnType) → Prop
  | [] => True
  | (_, t) :: rest => Distinct t ∧ AllDistinct rest

end

end ColumnType

end Columnar
