import Columnar.ColumnType

/-!
# The type of two columns together

`ColumnType.unify` is the narrowest type that represents the values of two types. Equal types stay,
`null` yields to every type, two numbers widen, lists unify their elements, structs combine field by
field, and everything else becomes a string. A field of two structs follows stricter rules,
`ColumnType.combineField`: numbers of different types become a string, and two lists keep their
structure only if both have struct elements.
-/

namespace Columnar.ColumnType

/-- The type of two numbers: a double if one of them is, else the wider integer. -/
def widen : ColumnType → ColumnType → ColumnType
  | .integer v, .integer w => .integer (v.max w)
  | _, _ => .double

mutual

/-- The type of a field that two structs share. -/
def combineField (left right : ColumnType) : ColumnType :=
  if left.agrees right then left
  else
    match left, right with
    | .null, _ => right
    | _, .null => left
    | .struct fs, .struct gs => .struct (combineFields (Record.ofEntries fs) gs)
    | .list .null, .list _ => right
    | .list _, .list .null => left
    | .list (.struct fs), .list (.struct gs) =>
      .list (.struct (combineFields (Record.ofEntries fs) gs))
    | .list _, .list _ => .list .string
    | _, _ => .string

/-- Fields combined with those collected so far; a new name goes to the end. -/
def combineFields (known : List (String × ColumnType)) :
    List (String × ColumnType) → List (String × ColumnType)
  | [] => known
  | (name, t) :: rest =>
    let together := match Record.get? name known with
      | none => t
      | some earlier => combineField earlier t
    combineFields (Record.put name together known) rest

end

/-- The struct of the fields of two structs together. -/
def combineStructs (left right : List (String × ColumnType)) : ColumnType :=
  .struct (combineFields (Record.ofEntries left) right)

/-- Two types of which one is no struct have no fields to combine. -/
structure NotStructs where
  left : ColumnType
  right : ColumnType

def NotStructs.message (e : NotStructs) : String :=
  "merge_structs requires two structs, got " ++ e.left.text ++ " and " ++ e.right.text

/-- The struct of the fields of two types together, which must be structs. -/
def combine : ColumnType → ColumnType → Except NotStructs ColumnType
  | .struct fs, .struct gs => .ok (combineStructs fs gs)
  | left, right => .error ⟨left, right⟩

/-- The narrowest type that represents the values of both types. -/
def unify (left right : ColumnType) : ColumnType :=
  if left.agrees right then left
  else
    match left, right with
    | .null, _ => right
    | _, .null => left
    | .struct fs, .struct gs => combineStructs fs gs
    | .list t, .list u => .list (unify t u)
    | _, _ => if left.isNumeric && right.isNumeric then widen left right else .string

end Columnar.ColumnType
