import Columnar.Yaml.QuotedScalar

/-!
# Plain scalars

Text without quotes. It ends before a colon that a gap follows, before a comment that a space
precedes, and inside flow collections before their indicators. It may go on over several lines as
long as these are indented deeper than what is around it; line breaks are folded as inside quotes.
-/

namespace Columnar.Yaml.Cursor

/-- Does a plain text stop before this character? `after` is the text behind it. -/
def endsPlain (inFlow : Bool) (x : Char) (after : List Char) : Bool :=
  let y := after.headD endChar
  isGap x || (x == ':' && (isGap y || (inFlow && ",[]\x7b\x7d".toList.contains y))) ||
    (inFlow && ",?[]\x7b\x7d".toList.contains x)

/-- The plain text at the head of a text, up to the next gap. -/
def plainRun (inFlow : Bool) : List Char → List Char
  | [] => []
  | x :: rest => if endsPlain inFlow x rest then [] else x :: plainRun inFlow rest

/-- Read line breaks and spaces behind a line break, unless a marker between documents starts one
of the lines. -/
def plainBreaks : Nat → Cursor → Option (List Char) × Cursor
  | 0, c => (some [], c)
  | fuel + 1, c =>
    if c.atSeparator then (none, c)
    else
      let c := c.skipSpaces
      match c.lineBreak with
      | (none, _) => (some [], c)
      | (some b, rest) =>
        let (more, rest) := plainBreaks fuel rest
        (more.map (b :: ·), rest)

/-- What stands behind a piece of plain text: the spaces or folded breaks, none where the scalar
ends, and whether a line break was passed. -/
structure PlainSpace where
  space : List Char
  crossed : Bool
  rest : Cursor

/-- Read the white space behind a piece of plain text. -/
def plainSpace (c : Cursor) : PlainSpace :=
  let (spaces, c) := c.takeWhile (· == ' ')
  match c.lineBreak with
  | (none, _) => ⟨spaces, false, c⟩
  | (some b, rest) =>
    match plainBreaks rest.bound rest with
    | (none, rest) => ⟨[], true, rest⟩
    | (some more, rest) => ⟨foldBreaks b more, true, rest⟩

/-- Read a plain scalar piece by piece, with the white space read before the next piece and
whether it passed a line break. -/
def plainPieces (inFlow : Bool) (limit : Nat) : Nat → PlainSpace → List Char × PlainSpace
  | 0, s => ([], s)
  | fuel + 1, s =>
    if s.rest.peek == '#' then ([], s)
    else
      let piece := plainRun inFlow s.rest.rest
      if piece.isEmpty then ([], s)
      else
        let t := plainSpace (s.rest.skip piece.length)
        if t.space.isEmpty || t.rest.peek == '#' || (!inFlow && t.rest.column < limit) then
          (s.space ++ piece, t)
        else
          let (more, last) := plainPieces inFlow limit fuel t
          (s.space ++ piece ++ more, last)

/-- Read a plain scalar; `parent` is the indentation around it. The flag says whether a line break
was passed behind the last piece. -/
def plainScalar (inFlow : Bool) (parent : Int) (c : Cursor) : String × Bool × Cursor :=
  let (text, last) :=
    plainPieces inFlow (parent + 1).toNat c.bound ⟨[], false, c⟩
  (String.ofList text, last.crossed, last.rest)

end Columnar.Yaml.Cursor
