import Columnar.Document.Parse
import Columnar.Schema.Infer

/-!
# Tables

Inputs are read into a table: one schema for all of them and one row for each document that is a
map, or for each map in a document that is a sequence. Where no input has such a row, every
document that is not null is a row of the synthetic column. The schema is inferred unless it is
given.
-/

namespace Columnar

/-- A table: its schema, its rows, and the number of documents they come from. -/
structure Table where
  schema : Schema
  rows : List Value
  documentCount : Nat

namespace Table

/-- How to read a table. -/
structure Options where
  mode : Document.Mode := {}
  expandSequences : Bool := true
  inference : Schema.Config := {}

/-- The nodes of a document that are rows: the document if it is a map, and the maps among the
items of a sequence if sequences are expanded. -/
def rowsOf (expandSequences : Bool) : Tree → List Tree
  | .map entries => [.map entries]
  | .sequence items => if expandSequences then items.filter Tree.isMap else []
  | _ => []

def mapRows (expandSequences : Bool) (documents : List Tree) : List Tree :=
  documents.flatMap (rowsOf expandSequences)

/-- The rows of each input: its map rows, or for inputs without any its documents that are not
null. -/
def selectRows (expandSequences : Bool) (inputs : List (List Tree)) : List (List Tree) :=
  let batches := inputs.map (mapRows expandSequences)
  if batches.all List.isEmpty then inputs.map fun documents => documents.filter fun t => !t.isNull
  else batches

/-- Why a table was not read. -/
inductive ReadError
  | parse (e : Document.ParseError)
  | noColumn (e : Schema.NoColumn)

def ReadError.message : ReadError → String
  | .parse e => e.message
  | .noColumn e => e.message

/-- The documents of all inputs, up to the first that cannot be read. -/
def parseAll (mode : Document.Mode) :
    List Document.Input → Noted (Except Document.ParseError (List (List Tree)))
  | [] => pure (.ok [])
  | input :: rest => do
    match ← Document.parse mode input with
    | .error e => return .error e
    | .ok documents => return (← parseAll mode rest).map (documents :: ·)

/-- The table of documents that were read, input by input. -/
def ofDocuments (options : Options) (given : Option Schema) (inputs : List (List Tree)) :
    Noted (Except Schema.NoColumn Table) := do
  let batches := selectRows options.expandSequences inputs
  let schema ← match given with
    | some schema => pure schema
    | none => Schema.infer options.inference batches
  match batches.flatten.mapM schema.row with
  | .error e => return .error e
  | .ok rows =>
    let documentCount := inputs.flatten.length
    Noted.note (.read rows.length documentCount inputs.length)
    return .ok ⟨schema, rows, documentCount⟩

/-- Read inputs into a table. -/
def read (options : Options) (given : Option Schema) (inputs : List Document.Input) :
    Noted (Except ReadError Table) := do
  match ← parseAll options.mode inputs with
  | .error e => return .error (.parse e)
  | .ok documents => return (← ofDocuments options given documents).mapError .noColumn

/-- A row as a record. A row that is null, or that has no columns, is a record of nulls. -/
def record (schema : Schema) (row : Value) : Plain :=
  match row.plain with
  | .null | .record [] => .record (Record.ofEntries (schema.names.map fun name => (name, .null)))
  | p => p

def records (t : Table) : List Plain := t.rows.map (record t.schema)

end Table

end Columnar
