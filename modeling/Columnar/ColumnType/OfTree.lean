import Columnar.ColumnType.Unify
import Columnar.Scalar.Classify
import Columnar.Tree

/-!
# The type of a document

`ColumnType.ofTree` is the type of a whole node: that of a scalar by its text, that of a sequence
by the unified type of its items, and a field for each key of a map. What has no value so far has
the type `null`; `ColumnType.settle` replaces it once all values were looked at.
-/

namespace Columnar.ColumnType

mutual

/-- The type of a node: a scalar's by its text, the unified one of all items for a list, a field
for each key of a map. An empty sequence is a list of `null` and so yields to every list. -/
def ofTree : Tree → ColumnType
  | .null => .null
  | .scalar text => Scalar.classify text
  | .sequence items => .list (ofItems .null items)
  | .map entries => .structOf (ofEntries entries)

/-- The types of items, unified with the type so far. -/
def ofItems (sofar : ColumnType) : List Tree → ColumnType
  | [] => sofar
  | t :: rest => ofItems (unify sofar (ofTree t)) rest

def ofEntries : List (String × Tree) → List (String × ColumnType)
  | [] => []
  | (key, t) :: rest => (key, ofTree t) :: ofEntries rest

end

mutual

/-- The type with `null` replaced by the string type at every depth. -/
def settle : ColumnType → ColumnType
  | .null => .string
  | .list t => .list (settle t)
  | .struct fs => .structOf (settleFields fs)
  | t => t

def settleFields : List (String × ColumnType) → List (String × ColumnType)
  | [] => []
  | (name, t) :: rest => (name, settle t) :: settleFields rest

end

end Columnar.ColumnType
