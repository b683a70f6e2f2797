import Columnar.Yaml.BlockScalar
import Columnar.Yaml.PlainScalar

/-!
# Token streams

A text is cut into tokens from its start to its end. Most tokens stand for themselves, but a key of
a mapping is only known by the colon behind it: a token that may turn out to be the start of a key
is held back until it is decided, and then the key's own token is put in front of it. Indentation
gives the starts and ends of block collections.

The tokens of a text with a fault are those that are released before the fault shows, so that a
reader meets an earlier fault of the grammar first. A token is held back while it, or one before
it, may still be the start of a key.
-/

namespace Columnar.Yaml

/-- A place that may turn out to be the start of a key: the number of its token, whether a colon
must follow, and its position. -/
structure KeyCandidate where
  token : Nat
  required : Bool
  mark : Mark
deriving DecidableEq, Repr

/-- A key with all its parts is on one line and at most this long. -/
def maxKeyLength : Nat := 1024

/-- The state of cutting a text into tokens: the position, the depth of flow collections, the
indentation with those around it, whether a key may start here, the possible keys by depth, the
tokens held back, and the number of tokens released. -/
structure Lexing where
  cursor : Cursor
  flowDepth : Int
  indent : Int
  indents : List Int
  keyAllowed : Bool
  candidates : List (Int × KeyCandidate)
  held : List Token
  released : Nat
  done : Bool

namespace Lexing

def start (source : List Char) : Lexing where
  cursor := Cursor.start source
  flowDepth := 0
  indent := -1
  indents := []
  keyAllowed := true
  candidates := []
  held := []
  released := 0
  done := false

/-- Outside of all flow collections. -/
def inBlock (s : Lexing) : Bool := s.flowDepth == 0

def mark (s : Lexing) : Mark := s.cursor.mark

def column (s : Lexing) : Int := s.cursor.column

def emit (lexeme : Lexeme) (mark : Mark) (s : Lexing) : Lexing :=
  { s with held := s.held ++ [⟨lexeme, mark⟩] }

/-- A possible key is decided when it was on an earlier line or too far back. -/
def isStale (s : Lexing) (k : KeyCandidate) : Bool :=
  k.mark.line != s.mark.line || maxKeyLength < s.mark.index - k.mark.index

/-- Forget the keys that are no longer possible; a required one is a fault. -/
def dropStale (s : Lexing) : Except Fault Lexing :=
  match s.candidates.find? fun e => s.isStale e.2 && e.2.required with
  | some e => .error (.within .simpleKey e.2.mark .keyWithoutColon s.mark)
  | none => .ok { s with candidates := s.candidates.filter fun e => !s.isStale e.2 }

/-- Forget the possible key at this depth; a required one is a fault. -/
def dropCandidate (s : Lexing) : Except Fault Lexing :=
  match s.candidates.lookup s.flowDepth with
  | none => .ok s
  | some k =>
    if k.required then .error (.within .simpleKey k.mark .keyWithoutColon s.mark)
    else .ok { s with candidates := s.candidates.filter fun e => e.1 != s.flowDepth }

/-- Note that the next token may be the start of a key, if one is allowed here. -/
def noteCandidate (s : Lexing) : Except Fault Lexing :=
  if s.keyAllowed then do
    let s ← s.dropCandidate
    let key : KeyCandidate :=
      { token := s.released + s.held.length
        required := s.inBlock && s.indent == s.column
        mark := s.mark }
    return { s with candidates := s.candidates ++ [(s.flowDepth, key)] }
  else .ok s

/-- End the block collections that are indented deeper than a column. -/
def closeBlocksFrom (column : Int) : List Int → Lexing → Lexing
  | [], s => s
  | outer :: indents, s =>
    if column < s.indent then
      closeBlocksFrom column indents { (s.emit .blockEnd s.mark) with indent := outer, indents }
    else s

/-- End the block collections that are indented deeper than a column; inside flow collections
indentation does not count. -/
def closeBlocks (column : Int) (s : Lexing) : Lexing :=
  if s.inBlock then closeBlocksFrom column s.indents s else s

def opens (column : Int) (s : Lexing) : Bool := s.indent < column

def pushIndent (column : Int) (s : Lexing) : Lexing :=
  { s with indent := column, indents := s.indent :: s.indents }

/-- Start a block collection here if the column is a new indentation. -/
def openBlock (lexeme : Lexeme) (s : Lexing) : Lexing :=
  if s.opens s.column then (s.pushIndent s.column).emit lexeme s.mark else s

/-- Move over spaces, comments and line breaks; `fuel` bounds the number of lines. In block context
a key may start on a new line. -/
def skipSeparation : Nat → Lexing → Lexing
  | 0, s => s
  | fuel + 1, s =>
    let c := s.cursor.skipSpaces.skipComment
    match c.lineBreak with
    | (none, _) => { s with cursor := c }
    | (some _, rest) =>
      skipSeparation fuel { s with cursor := rest, keyAllowed := s.keyAllowed || s.inBlock }

def skipByteOrderMark (s : Lexing) : Lexing :=
  if s.mark.index == 0 && s.cursor.peek == '\uFEFF' then { s with cursor := s.cursor.next } else s

/-! ## The kinds of token -/

def lexStreamEnd (s : Lexing) : Except Fault Lexing := do
  let s ← (s.closeBlocks (-1)).dropCandidate
  return { (s.emit .streamEnd s.mark) with keyAllowed := false, candidates := [], done := true }

/-- What ends every block collection: a directive or a marker between documents. -/
def endBlocks (s : Lexing) : Except Fault Lexing := do
  let s ← (s.closeBlocks (-1)).dropCandidate
  return { s with keyAllowed := false }

def lexDirective (s : Lexing) : Except Fault Lexing := do
  let s ← s.endBlocks
  let (lexeme, rest) ← s.cursor.directive
  return { (s.emit lexeme s.mark) with cursor := rest }

def lexMarker (lexeme : Lexeme) (s : Lexing) : Except Fault Lexing := do
  let s ← s.endBlocks
  return { (s.emit lexeme s.mark) with cursor := s.cursor.skip 3 }

def lexIndicator (lexeme : Lexeme) (s : Lexing) : Lexing :=
  { (s.emit lexeme s.mark) with cursor := s.cursor.next }

def lexFlowStart (lexeme : Lexeme) (s : Lexing) : Except Fault Lexing := do
  let s ← s.noteCandidate
  return { s with flowDepth := s.flowDepth + 1, keyAllowed := true }.lexIndicator lexeme

def lexFlowEnd (lexeme : Lexeme) (s : Lexing) : Except Fault Lexing := do
  let s ← s.dropCandidate
  return { s with flowDepth := s.flowDepth - 1, keyAllowed := false }.lexIndicator lexeme

def lexComma (s : Lexing) : Except Fault Lexing := do
  let s ← { s with keyAllowed := true }.dropCandidate
  return s.lexIndicator .flowEntry

/-- Fails in block context where no key may start. -/
def requireKeyAllowed (problem : Problem) (s : Lexing) : Except Fault Unit :=
  if s.inBlock && !s.keyAllowed then .error (.plain problem s.mark) else .ok ()

/-- Start a block collection here, in block context. -/
def openIfBlock (lexeme : Lexeme) (s : Lexing) : Lexing :=
  if s.inBlock then s.openBlock lexeme else s

def lexDash (s : Lexing) : Except Fault Lexing := do
  s.requireKeyAllowed .entryNotAllowed
  let s ← { s.openIfBlock .blockSequenceStart with keyAllowed := true }.dropCandidate
  return s.lexIndicator .blockEntry

def lexQuestionMark (s : Lexing) : Except Fault Lexing := do
  s.requireKeyAllowed .keyNotAllowed
  let s ← { s.openIfBlock .blockMappingStart with keyAllowed := s.inBlock }.dropCandidate
  return s.lexIndicator .key

/-- Put tokens in front of the one that a key starts with. -/
def insertAt (k : KeyCandidate) (lexemes : List Lexeme) (s : Lexing) : Lexing :=
  let n := k.token - s.released
  { s with held := s.held.take n ++ lexemes.map (fun l => ⟨l, k.mark⟩) ++ s.held.drop n }

/-- A colon: behind a possible key it makes that one a key, else it starts a value with no key. -/
def lexColon (s : Lexing) : Except Fault Lexing :=
  match s.candidates.lookup s.flowDepth with
  | some k =>
    let s := { s with
      candidates := s.candidates.filter fun e => e.1 != s.flowDepth
      keyAllowed := false }
    let column : Int := k.mark.column
    let s :=
      if s.inBlock && s.opens column then
        (s.pushIndent column).insertAt k [.blockMappingStart, .key]
      else s.insertAt k [.key]
    .ok (s.lexIndicator .value)
  | none => do
    s.requireKeyAllowed .valueNotAllowed
    let s ← { s.openIfBlock .blockMappingStart with keyAllowed := s.inBlock }.dropCandidate
    return s.lexIndicator .value

/-- A token that may start a key and behind which none may start. -/
def lexWord (read : Cursor → Except Fault (Lexeme × Cursor)) (s : Lexing) :
    Except Fault Lexing := do
  let s ← s.noteCandidate
  let (lexeme, rest) ← read s.cursor
  return { (s.emit lexeme s.mark) with cursor := rest, keyAllowed := false }

def lexReference (s : Lexing) : Except Fault Lexing :=
  s.lexWord fun c => (c.anchorName .reference).map fun r => (.reference r.1, r.2)

def lexAnchor (s : Lexing) : Except Fault Lexing :=
  s.lexWord fun c => (c.anchorName .anchor).map fun r => (.anchor r.1, r.2)

def lexQuoted (s : Lexing) : Except Fault Lexing :=
  s.lexWord fun c => c.quotedScalar.map fun r => (.scalar r.1 false, r.2)

def lexBlockScalar (folded : Bool) (s : Lexing) : Except Fault Lexing := do
  let s ← { s with keyAllowed := true }.dropCandidate
  let (text, rest) ← s.cursor.blockScalar folded s.indent
  return { (s.emit (.scalar text false) s.mark) with cursor := rest }

def lexPlain (s : Lexing) : Except Fault Lexing := do
  let s ← s.noteCandidate
  let (text, crossed, rest) := s.cursor.plainScalar (!s.inBlock) s.indent
  return { (s.emit (.scalar text true) s.mark) with cursor := rest, keyAllowed := crossed }

/-! ## The stream -/

/-- The characters that start no plain scalar by themselves. -/
def isIndicator (x : Char) : Bool := "-?:,[]\x7b\x7d#&*!|>'\"%@\x60".toList.contains x

def atPlain (s : Lexing) : Bool :=
  let x := s.cursor.peek
  !(isGap x || isIndicator x) ||
    (!isGap (s.cursor.peekAt 1) && (x == '-' || (s.inBlock && (x == '?' || x == ':'))))

/-- Does a question mark or colon here count as an indicator? -/
def atMappingIndicator (s : Lexing) : Bool := !s.inBlock || isGap (s.cursor.peekAt 1)

/-- The next token, by its first character. -/
def lexByCharacter (s : Lexing) : Except Fault Lexing :=
  let c := s.cursor
  let x := c.peek
  let lineStart := c.column == 0
  if x == endChar then s.lexStreamEnd
  else if x == '%' && lineStart then s.lexDirective
  else if lineStart && c.atMarker '-' then s.lexMarker .documentStart
  else if lineStart && c.atMarker '.' then s.lexMarker .documentEnd
  else if x == '[' then s.lexFlowStart .flowSequenceStart
  else if x == '{' then s.lexFlowStart .flowMappingStart
  else if x == ']' then s.lexFlowEnd .flowSequenceEnd
  else if x == '}' then s.lexFlowEnd .flowMappingEnd
  else if x == ',' then s.lexComma
  else if x == '-' && isGap (c.peekAt 1) then s.lexDash
  else if x == '?' && s.atMappingIndicator then s.lexQuestionMark
  else if x == ':' && s.atMappingIndicator then s.lexColon
  else if x == '*' then s.lexReference
  else if x == '&' then s.lexAnchor
  else if x == '!' then s.lexWord Cursor.tag
  else if x == '|' && s.inBlock then s.lexBlockScalar false
  else if x == '>' && s.inBlock then s.lexBlockScalar true
  else if x == '\x27' || x == '"' then s.lexQuoted
  else if s.atPlain then s.lexPlain
  else .error (.marked (some .nextToken) none (.cannotStart x) s.mark)

/-- Read one more token, with those that it implies. -/
def lexNext (s : Lexing) : Except Fault Lexing := do
  let s := s.skipByteOrderMark
  let s ← (s.skipSeparation s.cursor.bound).dropStale
  (s.closeBlocks s.column).lexByCharacter

/-- Is the first token held back because it may be the start of a key? -/
def isPending (s : Lexing) : Bool := s.candidates.any fun e => e.2.token == s.released

end Lexing

/-- The tokens of a text up to its end or up to a fault. -/
structure TokenStream where
  tokens : List Token
  fault : Option Fault

namespace TokenStream

/-- The tokens released from a state on; `fuel` bounds the steps, each of which reads a token or
releases one. -/
def releaseFrom : Nat → Lexing → TokenStream
  | 0, _ => ⟨[], none⟩
  | fuel + 1, s =>
    if s.done then ⟨s.held, none⟩
    else
      match s.held with
      | [] =>
        match s.lexNext with
        | .error fault => ⟨[], some fault⟩
        | .ok s => releaseFrom fuel s
      | token :: held =>
        match s.dropStale with
        | .error fault => ⟨[], some fault⟩
        | .ok s =>
          if s.isPending then
            match s.lexNext with
            | .error fault => ⟨[], some fault⟩
            | .ok s => releaseFrom fuel s
          else
            let rest := releaseFrom fuel { s with held, released := s.released + 1 }
            { rest with tokens := token :: rest.tokens }

/-- The tokens of a text. A character of the text gives at most one token with two that it implies
and one that ends what it opens, so that eight steps suffice for it. -/
def ofText (source : List Char) : TokenStream :=
  releaseFrom (8 * (source.length + 2)) (Lexing.start source)

end TokenStream

end Columnar.Yaml
