import Columnar.Yaml.Graph
import Columnar.Yaml.TokenStream

/-!
# The grammar of nodes

A node is read from a token stream into a graph. It is a reference to an anchor, or properties
and content: a scalar, a flow collection, in block position a block collection, and as a key or
value of a block mapping also a sequence whose entries are not indented. A node that is left out
is an empty scalar. An anchor is known as soon as its collection starts, and it is named once in a
document.
-/

namespace Columnar.Yaml

/-- The state of reading nodes: the tokens that are left and the fault behind them, the tag
handles and anchors of the document, and the graph so far. -/
structure Reading where
  stream : TokenStream
  handles : List (String × String)
  anchors : List (String × Nat)
  graph : Graph

/-- Reading changes the state or fails. -/
abbrev Read (α : Type) : Type := StateT Reading (Except Fault) α

/-- Where a node stands: inside a flow collection, in block position, or as a key or value of a
block mapping. -/
inductive Position
  | flow
  | block
  | mappingPart
deriving DecidableEq, Repr

def nullTag : String := "tag:yaml.org,2002:null"

def defaultHandles : List (String × String) := [("!", "!"), ("!!", "tag:yaml.org,2002:")]

/-- The texts that are nulls; one line feed behind a word for null does not count. -/
def isNullText (text : String) : Bool :=
  let words := ["~", "null", "Null", "NULL"]
  text == "" || words.contains text || (words.map (· ++ "\n")).contains text

/-- Is a scalar a null? Its tag decides; without one, or with the tag that leaves it open, its
text does, for plain scalars and tagged ones. -/
def isNullScalar (tag : Option String) (plain : Bool) (text : String) : Bool :=
  match tag with
  | some t => if t == "!" then isNullText text else t == nullTag
  | none => plain && isNullText text

/-- The anchor and the tag of a node, and where they begin. -/
structure Properties where
  anchor : Option String
  tag : Option String
  began : Option Mark

namespace Read

/-- The next token, or the fault in its place. -/
def peek : Read Token := fun s =>
  match s.stream.tokens, s.stream.fault with
  | t :: _, _ => .ok (t, s)
  | [], some fault => .error fault
  | [], none => .ok (⟨.streamEnd, ⟨0, 0, 0⟩⟩, s)

def advance : Read Unit :=
  modify fun s => { s with stream := { s.stream with tokens := s.stream.tokens.drop 1 } }

def take : Read Token := do
  let t ← peek
  advance
  return t

/-! ## Nodes of the graph -/

def addNode (n : Node) : Read Nat := do
  let s ← get
  let (id, graph) := s.graph.add n
  set { s with graph }
  return id

/-- Add a node and make its anchor known, if it has one. -/
def addAnchored (anchor : Option String) (n : Node) : Read Nat := do
  let s ← get
  match anchor with
  | none => addNode n
  | some name =>
    match s.anchors.lookup name with
    | some first =>
      let began := (s.graph.node? first).elim n.mark Node.mark
      throw (.within (.firstAnchor name) began .secondAnchor n.mark)
    | none =>
      let id ← addNode n
      modify fun s => { s with anchors := (name, id) :: s.anchors }
      return id

/-- Put the children into a collection. -/
def fill (id : Nat) (n : Node) : Read Nat := do
  modify fun s => { s with graph := s.graph.replace id n }
  return id

/-- The node of an anchor. -/
def findAnchor (name : String) (place : Mark) : Read Nat := do
  match (← get).anchors.lookup name with
  | some id => return id
  | none => throw (.plain (.undefinedReference name) place)

def emptyNode (mark : Mark) : Read Nat := addNode (.scalar "" true mark)

/-! ## Properties -/

def resolveTag (began place : Mark) (handle : Option String) (suffix : String) :
    Read String := do
  match handle with
  | none => return suffix
  | some h =>
    match (← get).handles.lookup h with
    | some base => return base ++ suffix
    | none => throw (.within .node began (.undefinedHandle h) place)

/-- Read an anchor and a tag, in either order and each if it is there. -/
def properties : Read Properties := do
  let t ← peek
  match t.lexeme with
  | .anchor name =>
    advance
    let u ← peek
    match u.lexeme with
    | .tag handle suffix =>
      advance
      return ⟨some name, some (← resolveTag t.mark u.mark handle suffix), some t.mark⟩
    | _ => return ⟨some name, none, some t.mark⟩
  | .tag handle suffix =>
    advance
    let u ← peek
    match u.lexeme with
    | .anchor name =>
      advance
      return ⟨some name, some (← resolveTag t.mark t.mark handle suffix), some t.mark⟩
    | _ => return ⟨none, some (← resolveTag t.mark t.mark handle suffix), some t.mark⟩
  | _ => return ⟨none, none, none⟩

/-! ## Content -/

def endsBlockPart (l : Lexeme) : Bool := l == .key || l == .value || l == .blockEnd

def endsBlockItem (l : Lexeme) : Bool := l == .blockEntry || l == .blockEnd

/-- What ends an item of a sequence without indentation that is left out. -/
def endsUnindentedItem (l : Lexeme) : Bool := l == .blockEntry || endsBlockPart l

/-- What ends a value inside a flow collection that is left out. -/
def endsFlowValue (close l : Lexeme) : Bool := l == .flowEntry || l == close

def endsFlowKey (close l : Lexeme) : Bool := l == .value || endsFlowValue close l

mutual

def node (position : Position) : Nat → Read Nat
  | 0 => do emptyNode (← peek).mark
  | fuel + 1 => do
    let t ← peek
    match t.lexeme with
    | .reference name =>
      advance
      findAnchor name t.mark
    | _ =>
      let props ← properties
      content position props fuel

/-- Read the content of a node behind its properties. -/
def content (position : Position) (props : Properties) : Nat → Read Nat
  | 0 => do emptyNode (← peek).mark
  | fuel + 1 => do
    let t ← peek
    let began := props.began.getD t.mark
    match t.lexeme, position with
    | .blockEntry, .mappingPart =>
      let id ← addAnchored props.anchor (.sequence [] began)
      fill id (.sequence (← unindentedItems fuel) began)
    | .scalar text plain, _ =>
      advance
      addAnchored props.anchor (.scalar text (isNullScalar props.tag plain text) began)
    | .flowSequenceStart, _ =>
      let id ← addAnchored props.anchor (.sequence [] began)
      advance
      fill id (.sequence (← flowItems t.mark true fuel) began)
    | .flowMappingStart, _ =>
      let id ← addAnchored props.anchor (.mapping [] began)
      advance
      fill id (.mapping (← flowEntries t.mark true fuel) began)
    | .blockSequenceStart, .block | .blockSequenceStart, .mappingPart =>
      let id ← addAnchored props.anchor (.sequence [] began)
      advance
      fill id (.sequence (← blockItems t.mark fuel) began)
    | .blockMappingStart, .block | .blockMappingStart, .mappingPart =>
      let id ← addAnchored props.anchor (.mapping [] began)
      advance
      fill id (.mapping (← blockEntries t.mark fuel) began)
    | found, _ =>
      if props.anchor.isSome || props.tag.isSome then
        addAnchored props.anchor (.scalar "" (isNullScalar props.tag true "") began)
      else
        let context := if position == .flow then Context.flowNode else .blockNode
        throw (.within context began (.expectedContent found.name) t.mark)

/-- Read a node, unless the next token shows that it is left out. -/
def nodeUnless (stop : Lexeme → Bool) (position : Position) : Nat → Read Nat
  | 0 => do emptyNode (← peek).mark
  | fuel + 1 => do
    let t ← peek
    if stop t.lexeme then emptyNode t.mark else node position fuel

/-- Read a value behind its colon. Without the colon it is left out. -/
def valueUnless (stop : Lexeme → Bool) (position : Position) : Nat → Read Nat
  | 0 => do emptyNode (← peek).mark
  | fuel + 1 => do
    let t ← peek
    if t.lexeme == .value then
      advance
      nodeUnless stop position fuel
    else emptyNode t.mark

def blockItems (began : Mark) : Nat → Read (List Nat)
  | 0 => return []
  | fuel + 1 => do
    let t ← take
    match t.lexeme with
    | .blockEntry =>
      let item ← nodeUnless endsBlockItem .block fuel
      return item :: (← blockItems began fuel)
    | .blockEnd => return []
    | found => throw (.within .blockCollection began (.expectedBlockEnd found.name) t.mark)

/-- Read the items of a sequence without indentation, up to the first other token. -/
def unindentedItems : Nat → Read (List Nat)
  | 0 => return []
  | fuel + 1 => do
    let t ← peek
    if t.lexeme == .blockEntry then
      advance
      let item ← nodeUnless endsUnindentedItem .block fuel
      return item :: (← unindentedItems fuel)
    else return []

def blockEntries (began : Mark) : Nat → Read (List (Nat × Nat))
  | 0 => return []
  | fuel + 1 => do
    let t ← take
    match t.lexeme with
    | .key =>
      let key ← nodeUnless endsBlockPart .mappingPart fuel
      let value ← valueUnless endsBlockPart .mappingPart fuel
      return (key, value) :: (← blockEntries began fuel)
    | .blockEnd => return []
    | found => throw (.within .blockMapping began (.expectedBlockEnd found.name) t.mark)

/-- Read the items of a flow sequence up to its bracket, with commas between them and perhaps one
behind the last. An item with a key is a mapping of its own. -/
def flowItems (began : Mark) (first : Bool) : Nat → Read (List Nat)
  | 0 => return []
  | fuel + 1 => do
    let t ← peek
    if t.lexeme != .flowSequenceEnd && !first then
      if t.lexeme == .flowEntry then advance
      else throw (.within .flowSequence began (.expectedSequenceEnd t.lexeme.name) t.mark)
    let t ← peek
    match t.lexeme with
    | .flowSequenceEnd =>
      advance
      return []
    | .key =>
      let id ← addNode (.mapping [] t.mark)
      advance
      let key ← nodeUnless (endsFlowKey .flowSequenceEnd) .flow fuel
      let value ← valueUnless (endsFlowValue .flowSequenceEnd) .flow fuel
      let item ← fill id (.mapping [(key, value)] t.mark)
      return item :: (← flowItems began false fuel)
    | _ =>
      let item ← node .flow fuel
      return item :: (← flowItems began false fuel)

/-- Read the entries of a flow mapping up to its brace, with commas between them and perhaps one
behind the last. A node without a colon is a key with its value left out. -/
def flowEntries (began : Mark) (first : Bool) : Nat → Read (List (Nat × Nat))
  | 0 => return []
  | fuel + 1 => do
    let t ← peek
    if t.lexeme != .flowMappingEnd && !first then
      if t.lexeme == .flowEntry then advance
      else throw (.within .flowMapping began (.expectedMappingEnd t.lexeme.name) t.mark)
    let t ← peek
    match t.lexeme with
    | .flowMappingEnd =>
      advance
      return []
    | .key =>
      advance
      let key ← nodeUnless (endsFlowKey .flowMappingEnd) .flow fuel
      let value ← valueUnless (endsFlowValue .flowMappingEnd) .flow fuel
      return (key, value) :: (← flowEntries began false fuel)
    | _ =>
      let key ← node .flow fuel
      let value ← emptyNode (← peek).mark
      return (key, value) :: (← flowEntries began false fuel)

end

end Read

end Columnar.Yaml
