import Columnar.Canonical
import Columnar.Path.Cache

/-!
# Queries

A query asks something about the node that a path leads to: the node itself, its text, whether
there is a value, its kind, its keys or its number of items. Finding nothing is an answer and no
error. An extractor answers queries about any documents and keeps the paths that it compiled.
-/

namespace Columnar.Path

/-- What is asked about a node. -/
inductive Query
  | node
  | text
  | present
  | kind
  | keys
  | length
deriving DecidableEq, Repr

/-- The answer to a query, each none where there is nothing to answer. -/
inductive Answer
  | node (found : Option Tree)
  | text (s : Option String)
  | present (b : Bool)
  | kind (name : Option String)
  | keys (names : Option (List String))
  | length (n : Option Nat)
deriving DecidableEq

/-- The name of a node's kind, in the words of JSON. -/
def kindName : Tree → String
  | .null => "null"
  | .scalar _ => "scalar"
  | .sequence _ => "array"
  | .map _ => "object"

/-- The text of a scalar as it is written, and the JSON text of a container; a null has none. -/
def nodeText? : Tree → Option String
  | .null => none
  | .scalar s => some s
  | t => some t.jsonText

def nodeKeys? : Tree → Option (List String)
  | .map entries => some (Record.names entries)
  | _ => none

def nodeLength? : Tree → Option Nat
  | .sequence items => some items.length
  | _ => none

/-- The answer, given the node that was found. -/
def Query.answer (found : Option Tree) : Query → Answer
  | .node => .node found
  | .text => .text (found.bind nodeText?)
  | .present => .present (found.any fun t => !t.isNull)
  | .kind => .kind (found.map kindName)
  | .keys => .keys (found.bind nodeKeys?)
  | .length => .length (found.bind nodeLength?)

/-- The answer to a query about a document, at a path given by its text. -/
def Query.ask (q : Query) (root : Tree) (path : String) : Except CacheError Answer :=
  match Path.compile path with
  | .error e => .error (.path e)
  | .ok p => .ok (q.answer (p.follow root))

/-- A path as it is handed over: a text that is still to be compiled, or a compiled path. -/
inductive Reference
  | text (s : String)
  | compiled (p : Path)

/-- Answers queries with the help of a cache; compiled paths go by it. -/
structure Extractor where
  cache : Cache

namespace Extractor

/-- The answer to a query about a document, and the extractor afterwards. -/
def ask (x : Extractor) (q : Query) (root : Tree) :
    Reference → Except CacheError Answer × Extractor
  | .compiled p => (.ok (q.answer (p.follow root)), x)
  | .text s =>
    let (path, cache) := x.cache.compile s
    (path.map fun p => q.answer (p.follow root), ⟨cache⟩)

end Extractor

end Columnar.Path
