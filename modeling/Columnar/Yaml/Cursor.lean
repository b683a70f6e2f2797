import Columnar.Yaml.Fault

/-!
# Reading positions

A cursor is a position together with the text behind it, and a bound on the length of that text
which the loops over it count down from. Moving over a line break starts a new line, a carriage
return before a line feed excepted, and a byte order mark takes up no column. Reading a line break
normalises it: all breaks become a line feed, except the two separators that stand for
themselves.
-/

namespace Columnar.Yaml

/-- A position and the text from there on. The whole text is shorter than `bound`. -/
structure Cursor where
  rest : List Char
  mark : Mark
  bound : Nat
deriving DecidableEq, Repr

namespace Cursor

def start (source : List Char) : Cursor := ⟨source, ⟨0, 0, 0⟩, source.length + 1⟩

def peek (c : Cursor) : Char := c.rest.headD endChar

def peekAt (n : Nat) (c : Cursor) : Char := c.rest.getD n endChar

def atEnd (c : Cursor) : Bool := c.peek == endChar

def column (c : Cursor) : Nat := c.mark.column

def endsLine (x : Char) (rest : List Char) : Bool :=
  x == '\n' || x == '\x85' || x == '\u2028' || x == '\u2029' ||
    (x == '\r' && rest.head? != some '\n')

/-- The position behind a character. -/
def moved (m : Mark) (x : Char) (rest : List Char) : Mark :=
  if endsLine x rest then ⟨m.index + 1, m.line + 1, 0⟩
  else if x == '\uFEFF' then ⟨m.index + 1, m.line, m.column⟩
  else ⟨m.index + 1, m.line, m.column + 1⟩

def next (c : Cursor) : Cursor :=
  match c.rest with
  | [] => c
  | x :: rest => { c with rest, mark := moved c.mark x rest }

def skip : Nat → Cursor → Cursor
  | 0, c => c
  | n + 1, c => skip n c.next

/-- The characters at the head of the text that satisfy a test. -/
def run (p : Char → Bool) (c : Cursor) : List Char := c.rest.takeWhile p

def skipWhile (p : Char → Bool) (c : Cursor) : Cursor := c.skip (c.run p).length

def takeWhile (p : Char → Bool) (c : Cursor) : List Char × Cursor := (c.run p, c.skipWhile p)

def skipSpaces (c : Cursor) : Cursor := c.skipWhile (· == ' ')

/-- Move over a comment, if there is one. -/
def skipComment (c : Cursor) : Cursor :=
  if c.peek == '#' then c.skipWhile fun x => !isBreakOrEnd x else c

/-- Read a line break, if there is one, as the character that it stands for. -/
def lineBreak (c : Cursor) : Option Char × Cursor :=
  let x := c.peek
  if x == '\r' && c.peekAt 1 == '\n' then (some '\n', c.skip 2)
  else if x == '\r' || x == '\n' || x == '\x85' then (some '\n', c.next)
  else if x == '\u2028' || x == '\u2029' then (some x, c.next)
  else (none, c)

/-- Does the given marker of three characters stand here, with a gap behind it? -/
def atMarker (x : Char) (c : Cursor) : Bool :=
  c.peek == x && c.peekAt 1 == x && c.peekAt 2 == x && isGap (c.peekAt 3)

def atSeparator (c : Cursor) : Bool := c.atMarker '-' || c.atMarker '.'

/-- Fails unless the next character satisfies a test. -/
def expect (c : Cursor) (p : Char → Bool) (context : Context) (began : Mark) (wanted : Wanted) :
    Except Fault Unit :=
  if p c.peek then .ok ()
  else .error (.within context began (.expected wanted c.peek) c.mark)

end Cursor

end Columnar.Yaml
