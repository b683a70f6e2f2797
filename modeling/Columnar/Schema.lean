import Columnar.Value

/-!
# Schemas

A schema lists the columns of a table, each a name with a type. Where a population has no maps,
the schema has one synthetic column instead that stands for whole documents; such a schema is
marked, and its rows are converted document by document.
-/

namespace Columnar

/-- The columns of a table. `wholeDocuments` marks the synthetic column of whole documents. -/
structure Schema where
  fields : List (String × ColumnType)
  wholeDocuments : Bool
deriving Repr

namespace Schema

def documentColumn : String := "value"

def ofFields (fields : List (String × ColumnType)) : Schema := ⟨fields, false⟩

def ofValues (type : ColumnType) : Schema := ⟨[(documentColumn, type)], true⟩

def names (s : Schema) : List String := Record.names s.fields

def types (s : Schema) : List ColumnType := s.fields.map Prod.snd

def get? (name : String) (s : Schema) : Option ColumnType := Record.get? name s.fields

def contains (name : String) (s : Schema) : Bool := s.fields.any fun f => f.1 == name

/-- The type of a row: a struct of all columns, a repeated name collapsed. -/
def rowType (s : Schema) : ColumnType := .structOf s.fields

/-- A schema of whole documents without a column for them. -/
structure NoColumn where

def NoColumn.message (_ : NoColumn) : String := "tuple index out of range"

def row (s : Schema) (node : Tree) : Except NoColumn Value :=
  if s.wholeDocuments then
    match s.fields with
    | [] => .error ⟨⟩
    | (name, t) :: _ =>
      .ok (.struct (Record.ofEntries s.fields) [(name, Value.ofTree t (some node))])
  else .ok (Value.ofTree s.rowType (some node))

end Schema

end Columnar
