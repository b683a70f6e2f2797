import Columnar.Yaml.Grammar

/-!
# Document streams

A stream holds documents, each behind a marker with its directives in front; only the first may do
without the marker. A directive holds for its own document alone. Each document is read and turned
into a tree before the next one is looked at, so that the fault of the earliest document is the one
that is found.
-/

namespace Columnar.Yaml

namespace Read

/-- Read the directives in front of a document into its handles. -/
def directives (versionSeen : Bool) (handles : List (String × String)) :
    Nat → Read (List (String × String))
  | 0 => return handles
  | fuel + 1 => do
    let t ← peek
    match t.lexeme with
    | .directive d =>
      advance
      match d with
      | .version major _ =>
        if versionSeen then throw (.plain .duplicateVersion t.mark)
        if major != 1 then throw (.plain .incompatibleVersion t.mark)
        directives true handles fuel
      | .tag handle base =>
        if (handles.lookup handle).isSome then
          throw (.plain (.duplicateHandle handle) t.mark)
        directives versionSeen (handles ++ [(handle, base)]) fuel
      | .other => directives versionSeen handles fuel
    | _ => return handles

def skipDocumentEnds : Read Unit :=
  modify fun s => { s with stream := { s.stream with
    tokens := s.stream.tokens.dropWhile fun t => t.lexeme == .documentEnd } }

/-- Does a token begin or end a document, or the stream? -/
def isBoundary (l : Lexeme) : Bool :=
  match l with
  | .directive _ | .documentStart | .documentEnd | .streamEnd => true
  | _ => false

/-- A bound on the depth of a node: each token leads through a few readers. -/
def depthBound : Read Nat := return 8 * ((← get).stream.tokens.length + 4)

def openDocument (handles : List (String × String)) : Read Unit :=
  modify fun s => { s with handles := handles ++ defaultHandles, anchors := [], graph := .empty }

/-- A document as a graph: the position of its start and the number of its root. -/
structure Root where
  began : Mark
  id : Nat

/-- Read a document behind its marker, with the directives before it; none at the end of the
stream. -/
def explicitDocument? : Read (Option Root) := do
  skipDocumentEnds
  let t ← peek
  if t.lexeme == .streamEnd then return none
  openDocument (← directives false [] (← depthBound))
  let u ← peek
  if u.lexeme != .documentStart then
    throw (.plain (.expectedDocumentStart u.lexeme.name) u.mark)
  advance
  let v ← peek
  let id ← if isBoundary v.lexeme then emptyNode v.mark else node .block (← depthBound)
  return some ⟨t.mark, id⟩

/-- Read the next document, and one marker that ends it; none at the end of the stream. -/
def document? (first : Bool) : Read (Option Root) := do
  let t ← peek
  let root ←
    match first, t.lexeme with
    | false, _ | true, .directive _ | true, .documentStart | true, .streamEnd => explicitDocument?
    | true, _ =>
      openDocument []
      pure (some ⟨t.mark, ← node .block (← depthBound)⟩)
  if root.isSome then
    let u ← peek
    if u.lexeme == .documentEnd then advance
  return root

end Read

/-- The trees of all documents from a state on; `fuel` bounds their number. -/
def Reading.trees (first : Bool) : Nat → Reading → Except Fault (List Tree)
  | 0, _ => .ok []
  | fuel + 1, s => do
    match ← Read.document? first s with
    | (none, _) => return []
    | (some root, s) =>
      let t ← s.graph.unfold root.id
      return t :: (← Reading.trees false fuel s)

/-- The tree of the only document, if there is one. A second document is a fault, and it is looked
for before the first is turned into a tree. -/
def Reading.onlyTree (s : Reading) : Except Fault (List Tree) := do
  match ← Read.document? true s with
  | (none, _) => return []
  | (some root, s) =>
    match ← nextStart s with
    | some place =>
      let began := (s.graph.node? root.id).elim place Node.mark
      throw (.within .singleDocument began .anotherDocument place)
    | none => return [← s.graph.unfold root.id]
where
  /-- The position where the next document starts, once its marker is read. -/
  nextStart (s : Reading) : Except Fault (Option Mark) := do
    let (t, s) ← (do Read.skipDocumentEnds; Read.peek : Read Token) s
    if t.lexeme == .streamEnd then return none
    let (_, s) ← (Read.directives false [] (s.stream.tokens.length + 1)) s
    let (u, _) ← Read.peek s
    if u.lexeme != .documentStart then
      throw (.plain (.expectedDocumentStart u.lexeme.name) u.mark)
    return some t.mark

def Reading.start (source : List Char) : Reading where
  stream := TokenStream.ofText source
  handles := []
  anchors := []
  graph := .empty

/-- The first character that no text may contain. -/
def unacceptable? (source : List Char) : Option Fault :=
  (source.findIdx? fun c => !isAcceptable c).map fun i =>
    .unacceptable (source.getD i endChar) i

def readStream (source : List Char) : Except Fault (List Tree) :=
  match unacceptable? source with
  | some fault => .error fault
  | none =>
    let s := Reading.start source
    s.trees true (s.stream.tokens.length + 2)

/-- The tree of the only document of a text, if there is one. -/
def readSingle (source : List Char) : Except Fault (List Tree) :=
  match unacceptable? source with
  | some fault => .error fault
  | none => (Reading.start source).onlyTree

end Columnar.Yaml
