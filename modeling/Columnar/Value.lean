import Columnar.Canonical

/-!
# Typed values

A value belongs to a column type. Every type has a null, lists remember their element type even
when they are empty, and structs remember their declared fields. `Value.ofTree` reads a document
node as a value of a type: what does not fit becomes a null of that type, so that one bad value
never costs the values around it.
-/

namespace Columnar

/-- A value of a column type. -/
inductive Value
  | null (type : ColumnType)
  | boolean (b : Bool)
  | integer (width : Width) (n : Int)
  | double (d : Double)
  | date (d : Date)
  | time (t : TimeOfDay)
  | timestamp (t : Timestamp)
  | string (s : String)
  | any (json : String)
  | list (element : ColumnType) (items : List Value)
  | struct (fields : List (String × ColumnType)) (entries : List (String × Value))

/-- A value without its type: what a record holds. -/
inductive Plain
  | null
  | boolean (b : Bool)
  | integer (n : Int)
  | double (d : Double)
  | date (d : Date)
  | time (t : TimeOfDay)
  | timestamp (t : Timestamp)
  | text (s : String)
  | list (items : List Plain)
  | record (entries : List (String × Plain))

namespace Value

def type : Value → ColumnType
  | .null t => t
  | .boolean _ => .boolean
  | .integer w _ => .integer w
  | .double _ => .double
  | .date _ => .date
  | .time _ => .time
  | .timestamp _ => .timestamp
  | .string _ => .string
  | .any _ => .any
  | .list t _ => .list t
  | .struct fs _ => .struct fs

def isNull : Value → Bool
  | .null _ => true
  | _ => false

/-- Why a value has no field of a name. -/
inductive FieldError
  /-- The value is no struct. -/
  | notStruct (type : ColumnType)
  /-- The struct has no such field. -/
  | noField (name : String)

def FieldError.message : FieldError → String
  | .notStruct type => "field() requires a struct value, got " ++ type.text
  | .noField name => Text.quoted name

/-- The value of a field. A null struct has null fields. -/
def field (name : String) (v : Value) : Except FieldError Value :=
  match v.type with
  | .struct fs =>
    match Record.get? name fs with
    | none => .error (.noField name)
    | some t =>
      match v with
      | .struct _ entries => (Record.get? name entries).elim (.error (.noField name)) .ok
      | _ => .ok (.null t)
  | t => .error (.notStruct t)

mutual

/-- The value without its type; in a record the last entry of a name counts. -/
def plain : Value → Plain
  | .null _ => .null
  | .boolean b => .boolean b
  | .integer _ n => .integer n
  | .double d => .double d
  | .date d => .date d
  | .time t => .time t
  | .timestamp t => .timestamp t
  | .string s => .text s
  | .any json => .text json
  | .list _ items => .list (plainItems items)
  | .struct _ entries => .record (Record.ofEntries (plainEntries entries))

def plainItems : List Value → List Plain
  | [] => []
  | v :: rest => plain v :: plainItems rest

def plainEntries : List (String × Value) → List (String × Plain)
  | [] => []
  | (name, v) :: rest => (name, plain v) :: plainEntries rest

end

/-- What a scalar reader has read, or a null of the type. -/
def ofRead {α : Type} (type : ColumnType) (make : α → Value) : Option α → Value
  | some a => make a
  | none => .null type

/-- The integer of a text, if it fits the width. -/
def integerWithin? (width : Width) (text : String) : Option Int :=
  (Scalar.integer? text).bind fun n =>
    match Width.ofInt? n with
    | some w => if w.bits ≤ width.bits then some n else none
    | none => none

/-- The value of a scalar type that a node holds. A node that is no scalar fits a string only, as
its JSON text. -/
def ofScalar (target : ColumnType) (node : Tree) : Value :=
  match target, node with
  | .string, .scalar s => .string s
  | .string, node => .string node.jsonText
  | .boolean, .scalar s => ofRead target .boolean (Scalar.boolean? s)
  | .integer w, .scalar s => ofRead target (.integer w) (integerWithin? w s)
  | .double, .scalar s => ofRead target .double (Scalar.double? s)
  | .date, .scalar s => ofRead target .date (Scalar.date? s)
  | .time, .scalar s => ofRead target .time (Scalar.time? s)
  | .timestamp, .scalar s => ofRead target .timestamp (Scalar.timestamp? s)
  | _, _ => .null target

mutual

/-- A node as a value of a type. An absent node is a null, and so is a null node of every type
but `any`. -/
def ofTree (target : ColumnType) (node : Option Tree) : Value :=
  match target, node with
  | _, none => .null target
  | .any, some node => .any node.jsonText
  | _, some .null => .null target
  | .struct fs, some (.map entries) => .struct fs (ofFields fs entries)
  | .struct _, some _ => .null target
  | .list element, some (.sequence items) =>
    .list element (items.map fun item => ofTree element (some item))
  | .list _, some _ => .null target
  | _, some node => ofScalar target node

/-- The declared fields of a map, in declared order. -/
def ofFields (fields : List (String × ColumnType)) (entries : List (String × Tree)) :
    List (String × Value) :=
  match fields with
  | [] => []
  | (name, t) :: rest =>
    (name, ofTree t (Record.get? name entries)) :: ofFields rest entries

end

theorem ofFields_eq (fs : List (String × ColumnType)) (entries : List (String × Tree)) :
    ofFields fs entries = fs.map fun f => (f.1, ofTree f.2 (Record.get? f.1 entries)) := by
  induction fs with
  | nil => rfl
  | cons f rest ih =>
    obtain ⟨name, t⟩ := f
    rw [ofFields, ih, List.map_cons]

end Value

end Columnar
