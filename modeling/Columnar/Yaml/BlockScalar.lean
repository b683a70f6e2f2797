import Columnar.Yaml.Cursor

/-!
# Block scalars

A block scalar follows its header line by line, each line indented to the same column. A literal
one keeps its line breaks; in a folded one a single break between two lines that start with no
white space becomes a space. The header may fix the indentation, which is otherwise that of the
first line, and may say whether the line breaks at the end are stripped or kept.
-/

namespace Columnar.Yaml.Cursor

/-- What becomes of the line breaks at the end. -/
inductive Chomping
  | strip
  | clip
  | keep
deriving DecidableEq, Repr

/-- What the header of a block scalar says. -/
structure BlockHeader where
  chomping : Chomping
  indentation : Option Nat
deriving DecidableEq, Repr

/-- Read a chomping indicator, if there is one. -/
def chompingIndicator (c : Cursor) : Option Chomping × Cursor :=
  if c.peek == '+' then (some .keep, c.next)
  else if c.peek == '-' then (some .strip, c.next)
  else (none, c)

/-- Read an indentation indicator, if there is one. -/
def indentationIndicator (began : Mark) (c : Cursor) : Except Fault (Option Nat × Cursor) :=
  if c.peek == '0' then .error (.within .blockScalar began .zeroIndentation c.mark)
  else if c.peek.isDigit then .ok (some (c.peek.toNat - '0'.toNat), c.next)
  else .ok (none, c)

/-- Read the indicators of a header, which come in either order. -/
def blockHeader (began : Mark) (c : Cursor) : Except Fault (BlockHeader × Cursor) := do
  let (first, c) := c.chompingIndicator
  let (indentation, c) ← c.indentationIndicator began
  let (second, c) :=
    if first.isNone && indentation.isSome then c.chompingIndicator else (none, c)
  c.expect (fun x => x == ' ' || isBreakOrEnd x) .blockScalar began .blockIndicator
  return (⟨(first <|> second).getD .clip, indentation⟩, c)

def skipIndent (indent : Nat) (c : Cursor) : Cursor :=
  c.skip ((c.run (· == ' ')).take (indent - c.column)).length

/-- Read empty lines, and the spaces before a column on the line behind them. -/
def emptyLines (indent : Nat) : Nat → Cursor → List Char × Cursor
  | 0, c => ([], c.skipIndent indent)
  | fuel + 1, c =>
    let c := c.skipIndent indent
    match c.lineBreak with
    | (none, _) => ([], c)
    | (some b, rest) =>
      let (more, rest) := emptyLines indent fuel rest
      (b :: more, rest)

/-- Read empty lines and spaces however far they reach, with the largest column reached. -/
def leadingLines : Nat → Cursor → List Char × Nat × Cursor
  | 0, c => ([], 0, c)
  | fuel + 1, c =>
    let c := c.skipSpaces
    match c.lineBreak with
    | (none, _) => ([], c.column, c)
    | (some b, rest) =>
      let (more, widest, rest) := leadingLines fuel rest
      (b :: more, max c.column widest, rest)

/-- What stands between two lines of text: the break that ended the first, or in a folded scalar
a space for a single break. -/
def glue (folded textBefore textAfter : Bool) (lineEnd : Option Char) (empty : List Char) :
    List Char :=
  if folded && lineEnd == some '\n' && textBefore && textAfter then
    if empty.isEmpty then [' '] else []
  else lineEnd.toList

/-- The lines of a block scalar: its text up to the last line, the break that ended this line, and
the empty lines behind it. -/
structure BlockLines where
  text : List Char
  lineEnd : Option Char
  empty : List Char
  rest : Cursor

/-- Read the lines of a block scalar, with the empty lines read before them. -/
def blockLines (folded : Bool) (indent : Nat) : Nat → List Char → Cursor → BlockLines
  | 0, empty, c => ⟨[], none, empty, c⟩
  | fuel + 1, empty, c =>
    if c.column == indent && !c.atEnd then
      let textBefore := !isWhite c.peek
      let (line, c) := c.takeWhile fun x => !isBreakOrEnd x
      let (lineEnd, c) := c.lineBreak
      let (behind, c) := emptyLines indent c.bound c
      if c.column == indent && !c.atEnd then
        let between := glue folded textBefore (!isWhite c.peek) lineEnd behind
        let more := blockLines folded indent fuel behind c
        { more with text := empty ++ line ++ between ++ more.text }
      else ⟨empty ++ line, lineEnd, behind, c⟩
    else ⟨[], none, empty, c⟩

/-- Read a block scalar from its indicator on; `parent` is the indentation around it. -/
def blockScalar (folded : Bool) (parent : Int) (c : Cursor) : Except Fault (String × Cursor) := do
  let began := c.mark
  let (header, c) ← c.next.blockHeader began
  let c := c.skipSpaces.skipComment
  c.expect isBreakOrEnd .blockScalar began .lineEnd
  let c := c.lineBreak.2
  let least := max 1 (parent + 1).toNat
  let (empty, indent, c) := match header.indentation with
    | some n =>
      let indent := least + n - 1
      let (empty, c) := emptyLines indent c.bound c
      (empty, indent, c)
    | none =>
      let (empty, widest, c) := leadingLines c.bound c
      (empty, max least widest, c)
  let lines := blockLines folded indent c.bound empty c
  let tail := match header.chomping with
    | .strip => []
    | .clip => lines.lineEnd.toList
    | .keep => lines.lineEnd.toList ++ lines.empty
  return (String.ofList (lines.text ++ tail), lines.rest)

end Columnar.Yaml.Cursor
