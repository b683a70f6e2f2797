import Columnar.Yaml.Cursor
import Columnar.Yaml.Token

/-!
# Names, tags and directives

Readers for the lexemes that are made of words: names of anchors, handles and URIs of tags, and
directives. In a URI, bytes may be written as a percent sign with two hexadecimal digits; a run of
such bytes is read as UTF-8.
-/

namespace Columnar.Yaml

def hexNumber (cs : List Char) : Nat :=
  cs.foldl (fun n c =>
    16 * n + (if c.isDigit then c.toNat - '0'.toNat else c.toLower.toNat - 'a'.toNat + 10)) 0

def decimalNumber (cs : List Char) : Nat :=
  cs.foldl (fun n c => 10 * n + (c.toNat - '0'.toNat)) 0

namespace Cursor

/-- Read the name of an anchor behind its indicator. A name ends before a gap or one of a few
indicators. -/
def anchorName (context : Context) (c : Cursor) : Except Fault (String × Cursor) := do
  let began := c.mark
  let (name, c) := c.next.takeWhile isWord
  if name.isEmpty then
    throw (.within context began (.expected .wordCharacter c.peek) c.mark)
  c.expect (fun x => isGap x || "?:,]\x7d%@\x60".toList.contains x) context began .wordCharacter
  return (String.ofList name, c)

/-- Read the handle of a tag: an exclamation mark, and where words and another one follow, these
too. -/
def tagHandle (context : Context) (began : Mark) (c : Cursor) : Except Fault (String × Cursor) := do
  c.expect (· == '!') context began .exclamation
  if c.peekAt 1 == ' ' then return ("!", c.next)
  let (name, c) := c.next.takeWhile isWord
  c.expect (· == '!') context began .exclamation
  return (String.ofList ('!' :: name ++ ['!']), c.next)

def isUriChar (x : Char) : Bool := isAlphanumeric x || "-;/?:@&=+$,_.!~*'()[]".toList.contains x

/-- Read a run of bytes, each behind a percent sign; `fuel` bounds their number. -/
def uriBytes (context : Context) (began : Mark) :
    Nat → Cursor → Except Fault (List UInt8 × Cursor)
  | 0, c => .ok ([], c)
  | fuel + 1, c =>
    if c.peek != '%' then .ok ([], c)
    else do
      let c := c.next
      let ds := [c.peek, c.peekAt 1]
      match ds.find? fun x => !isHex x with
      | some x => throw (.within context began (.expected .uriEscape x) c.mark)
      | none =>
        let (bytes, rest) ← uriBytes context began fuel (c.skip 2)
        return (UInt8.ofNat (hexNumber ds) :: bytes, rest)

/-- Read a URI piece by piece; `fuel` bounds the number of pieces. -/
def uriPieces (context : Context) (began : Mark) : Nat → Cursor → Except Fault (List Char × Cursor)
  | 0, c => .ok ([], c)
  | fuel + 1, c =>
    if c.peek == '%' then do
      let (bytes, rest) ← uriBytes context began c.bound c
      match Text.Utf8.decode bytes with
      | .error fault => throw (.within context began (.uriNotText fault) c.mark)
      | .ok piece =>
        let (more, rest) ← uriPieces context began fuel rest
        return (piece ++ more, rest)
    else if isUriChar c.peek then do
      let (piece, rest) := c.takeWhile isUriChar
      let (more, rest) ← uriPieces context began fuel rest
      return (piece ++ more, rest)
    else .ok ([], c)

/-- Read a URI, which is not empty. Faults of its bytes have the context of the construct that the
URI belongs to, and a missing URI has one of its own. -/
def tagUri (context missing : Context) (began : Mark) (c : Cursor) :
    Except Fault (String × Cursor) := do
  c.expect (fun x => isUriChar x || x == '%') missing began .uri
  let (piece, rest) ← uriPieces context began c.bound c
  return (String.ofList piece, rest)

/-- Does a tag, read from behind its exclamation mark, have a second one before the next space or
the end of the line? -/
def hasHandle (rest : List Char) : Bool :=
  (rest.takeWhile fun x => !(x == ' ' || isBreakOrEnd x)).contains '!'

/-- Read a tag: a URI in angle brackets, the lone mark, or a handle with a URI behind it. -/
def tag (c : Cursor) : Except Fault (Lexeme × Cursor) := do
  let began := c.mark
  let (lexeme, c) ←
    if c.peekAt 1 == '<' then do
      let (uri, c) ← tagUri .tag .tagUri began (c.skip 2)
      c.expect (· == '>') .tagUri began .tagEnd
      pure (Lexeme.tag none uri, c.next)
    else if isGap (c.peekAt 1) then pure (Lexeme.tag none "!", c.next)
    else do
      let (handle, c) ←
        if hasHandle (c.rest.drop 1) then tagHandle .tag began c else pure ("!", c.next)
      let (uri, c) ← tagUri .tag .tagUri began c
      pure (Lexeme.tag (some handle) uri, c)
  c.expect (fun x => x == ' ' || isBreakOrEnd x) .tag began .space
  return (lexeme, c)

/-- More digits than this are not read as a number. -/
def maxVersionDigits : Nat := 4300

def versionNumber (began : Mark) (c : Cursor) : Except Fault (Nat × Cursor) := do
  c.expect Char.isDigit .directive began .digit
  let (ds, rest) := c.takeWhile Char.isDigit
  if maxVersionDigits < ds.length then throw (.refused (.longNumber ds.length))
  return (decimalNumber ds, rest)

def directive (c : Cursor) : Except Fault (Lexeme × Cursor) := do
  let began := c.mark
  let (name, c) := c.next.takeWhile isWord
  if name.isEmpty then
    throw (.within .directive began (.expected .wordCharacter c.peek) c.mark)
  c.expect (fun x => x == ' ' || isBreakOrEnd x) .directive began .wordCharacter
  let (d, c) ←
    if name == "YAML".toList then do
      let (major, c) ← versionNumber began c.skipSpaces
      c.expect (· == '.') .directive began .digitOrPoint
      let (minor, c) ← versionNumber began c.next
      c.expect (fun x => x == ' ' || isBreakOrEnd x) .directive began .digitOrSpace
      pure (Directive.version major minor, c)
    else if name == "TAG".toList then do
      let (handle, c) ← tagHandle .directive began c.skipSpaces
      c.expect (· == ' ') .directive began .space
      let (base, c) ← tagUri .directive .directiveUri began c.skipSpaces
      c.expect (fun x => x == ' ' || isBreakOrEnd x) .directive began .space
      pure (Directive.tag handle base, c)
    else pure (Directive.other, c.skipWhile fun x => !isBreakOrEnd x)
  let c := c.skipSpaces.skipComment
  c.expect isBreakOrEnd .directive began .lineEnd
  return (.directive d, c.lineBreak.2)

end Cursor

end Columnar.Yaml
