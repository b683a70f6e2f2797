import Columnar.ColumnType.OfTree
import Columnar.Notice
import Columnar.Schema
import Columnar.Schema.Config

/-!
# Inference

A schema is inferred from the documents at the front of a population. `Schema.sampling` goes through
the batches one by one and through their documents, counting both, until a cap is reached. For
`Schema.infer` every key of the sampled maps becomes a column, in the order in which the keys are
first seen, and its type is the fold of `unify` over the types of its values; a population without
columns has the synthetic one instead. `Schema.documentType` folds the types of whole documents into
one. At the end `null`, a type never seen with a value, becomes a string.
-/

namespace Columnar.Schema

open ColumnType (unify settle)

/-- The type of a node under the given parameters. -/
def typeWith (config : Config) (node : Tree) : ColumnType :=
  if config.detectTypes then .ofTree node else .string

/-- A type unified with the one so far, if there is one. -/
def unifyOnto (sofar : Option ColumnType) (type : ColumnType) : ColumnType :=
  match sofar with
  | none => type
  | some known => unify known type

/-- Have so many been looked at as the cap allows? -/
def capReached (cap : Option Nat) (count : Nat) : Bool := cap.any (· ≤ count)

/-- The documents that are looked at in one batch, with `taken` documents before them, and whether
the cap left one out. -/
def sampleBatch (rowCap : Option Nat) (taken : Nat) : List Tree → List Tree × Bool
  | [] => ([], false)
  | node :: rest =>
    if capReached rowCap taken then ([], true)
    else
      let (documents, stopped) := sampleBatch rowCap (taken + 1) rest
      (node :: documents, stopped)

/-- The documents that are looked at in the batches from number `index` on, with `taken` documents
before them. Each cap is asked before one more batch or document is looked at, and what a cap leaves
out is noted. -/
def sampleFrom (config : Config) (index taken : Nat) : List (List Tree) → Noted (List Tree)
  | [] => pure []
  | batch :: rest =>
    if capReached config.batchCap index then do
      Noted.note (.batchesCapped index)
      return []
    else
      let (documents, stopped) := sampleBatch config.rowCap taken batch
      let taken := taken + documents.length
      if stopped then do
        Noted.note (.rowsCapped taken)
        return documents
      else do
        return documents ++ (← sampleFrom config (index + 1) taken rest)

/-- The documents that inference looks at, with a notice if a cap left something out. -/
def sampling (config : Config) (batches : List (List Tree)) : Noted (List Tree) :=
  sampleFrom config 0 0 batches

/-- The documents that inference looks at. -/
def sample (config : Config) (batches : List (List Tree)) : List Tree :=
  (sampling config batches).result

/-- What was seen of the rows so far: a type for each column, and one for the documents that are no
maps, if there are any. -/
structure Columns where
  types : Record ColumnType
  fallback : Option ColumnType

namespace Columns

/-- One more value in a column. A declared type stands. -/
def addValue (config : Config) (types : Record ColumnType) (entry : String × Tree) :
    Record ColumnType :=
  let (key, value) := entry
  match Record.get? key config.declared with
  | some t => Record.put key t types
  | none => Record.put key (unifyOnto (Record.get? key types) (typeWith config value)) types

def add (config : Config) (seen : Columns) (node : Tree) : Columns :=
  match node with
  | .map entries => { seen with types := entries.foldl (addValue config) seen.types }
  | _ => { seen with fallback := some (unifyOnto seen.fallback (typeWith config node)) }

/-- The schema of what was seen. -/
def schema (config : Config) (seen : Columns) : Schema :=
  if seen.types.isEmpty then ofValues (seen.fallback.elim .string settle)
  else
    ofFields (seen.types.map fun (name, t) =>
      (name, if (Record.get? name config.declared).isSome then t else settle t))

end Columns

/-- The schema of a population of batches. -/
def inferFrom (config : Config) (batches : List (List Tree)) : Schema :=
  ((sample config batches).foldl (Columns.add config) ⟨[], none⟩).schema config

/-- The schema of a population of batches, with notices. -/
def infer (config : Config) (batches : List (List Tree)) : Noted Schema :=
  let schema := inferFrom config batches
  ⟨schema, (sampling config batches).notices ++
    [.inferred schema.fields.length (sample config batches).length]⟩

/-- One type for whole documents; a string if there is none. -/
def documentTypeFrom (config : Config) (documents : List Tree) : ColumnType :=
  let merged := (sample config [documents]).foldl
    (fun sofar node => some (unifyOnto sofar (typeWith config node))) none
  merged.elim .string settle

/-- One type for whole documents, with notices. -/
def documentType (config : Config) (documents : List Tree) : Noted ColumnType :=
  ⟨documentTypeFrom config documents, (sampling config [documents]).notices⟩

end Columnar.Schema
