import Columnar.Yaml.Tag

/-!
# Quoted scalars

Text between single or double quotes. A single quote inside single quotes is written twice; inside
double quotes a backslash starts an escape. Line breaks are folded: white space around a break is
dropped, a single break becomes a space, and further breaks are kept instead of it.
-/

namespace Columnar.Yaml.Cursor

def escapes : List (Char × Char) :=
  [('0', '\x00'), ('a', '\x07'), ('b', '\x08'), ('t', '\t'), ('\t', '\t'), ('n', '\n'),
    ('v', '\x0b'), ('f', '\x0c'), ('r', '\r'), ('e', '\x1b'), (' ', ' '), ('"', '"'),
    ('\\', '\\'), ('/', '/'), ('N', '\x85'), ('_', '\u00a0'), ('L', '\u2028'), ('P', '\u2029')]

/-- How many hexadecimal digits follow the letter of an escape by code point. -/
def codeLength? (x : Char) : Option Nat :=
  if x == 'x' then some 2 else if x == 'u' then some 4 else if x == 'U' then some 8 else none

/-- Is the code point a surrogate? Surrogates can be escaped, but they are no characters. -/
def isSurrogate (code : Nat) : Bool := 0xD800 ≤ code && code ≤ 0xDFFF

/-- How far behind the surrogates their stand-ins are, the last 2048 code points. -/
def standInOffset : Nat := 0x102000

/-- The character of a code point, unless it is beyond the last one. A text holds characters only,
so for each surrogate another one stands in, which is for private use. Different surrogates are then
different texts; given up is the difference between a surrogate and its stand-in written as such. -/
def charOfCode (code : Nat) : Except Fault Char :=
  if isSurrogate code then .ok (Char.ofNat (code + standInOffset))
  else if code ≤ 0x10FFFF then .ok (Char.ofNat code)
  else if code ≤ 0x7FFFFFFF then .error (.refused .codePoint)
  else .error (.refused .wideCodePoint)

theorem toNat_ofNat_of_isValidChar {n : Nat} (h : n.isValidChar) : (Char.ofNat n).toNat = n := by
  rw [Char.ofNat, dif_pos h]
  rfl

theorem toNat_of_charOfCode {code : Nat} {x : Char} (h : charOfCode code = .ok x) :
    x.toNat = if isSurrogate code then code + standInOffset else code := by
  have hrange : isSurrogate code = true ↔ 0xD800 ≤ code ∧ code ≤ 0xDFFF := by
    simp [isSurrogate]
  unfold charOfCode at h
  by_cases hsurrogate : isSurrogate code = true
  · rw [if_pos hsurrogate] at h ⊢
    obtain rfl := Except.ok.inj h
    rw [hrange] at hsurrogate
    apply toNat_ofNat_of_isValidChar
    unfold Nat.isValidChar standInOffset
    omega
  · rw [if_neg hsurrogate] at h ⊢
    split at h
    · obtain rfl := Except.ok.inj h
      rw [hrange] at hsurrogate
      apply toNat_ofNat_of_isValidChar
      unfold Nat.isValidChar
      omega
    · split at h <;> cases h

/-- Escapes of different code points write different characters, stand-ins aside. -/
theorem charOfCode_injective {a b : Nat} {x : Char} (ha : a < 0xD800 + standInOffset)
    (hb : b < 0xD800 + standInOffset) (hx : charOfCode a = .ok x) (hy : charOfCode b = .ok x) :
    a = b := by
  have hcodes := (toNat_of_charOfCode hx).symm.trans (toNat_of_charOfCode hy)
  simp only [isSurrogate, Bool.and_eq_true, decide_eq_true_eq] at hcodes
  split at hcodes <;> split at hcodes <;> omega

/-- Read the breaks behind a line break, with the white space that leads each line. No marker
between documents may start one of the lines. -/
def quotedBreaks (began : Mark) : Nat → Cursor → Except Fault (List Char × Cursor)
  | 0, c => .ok ([], c)
  | fuel + 1, c =>
    if c.atSeparator then .error (.within .quotedScalar began .documentSeparator c.mark)
    else
      let c := c.skipWhile isWhite
      match c.lineBreak with
      | (none, _) => .ok ([], c)
      | (some b, rest) => do
        let (more, rest) ← quotedBreaks began fuel rest
        return (b :: more, rest)

/-- What a line break with the breaks behind it folds to. -/
def foldBreaks (first : Char) (more : List Char) : List Char :=
  if first != '\n' then first :: more
  else if more.isEmpty then [' ']
  else more

def quotedSpace (began : Mark) (c : Cursor) : Except Fault (List Char × Cursor) := do
  let (white, c) := c.takeWhile isWhite
  if c.atEnd then throw (.within .quotedScalar began .endOfText c.mark)
  match c.lineBreak with
  | (none, _) => return (white, c)
  | (some b, rest) =>
    let (more, rest) ← quotedBreaks began rest.bound rest
    return (foldBreaks b more, rest)

def escape (began : Mark) (c : Cursor) : Except Fault (List Char × Cursor) := do
  let c := c.next
  match escapes.lookup c.peek, codeLength? c.peek with
  | some x, _ => return ([x], c.next)
  | none, some count =>
    let c := c.next
    let ds := (List.range count).map c.peekAt
    match ds.find? fun x => !isHex x with
    | some x => throw (.within .escape began (.expected (.escapeDigits count) x) c.mark)
    | none => return ([← charOfCode (hexNumber ds)], c.skip count)
  | none, none =>
    match c.lineBreak with
    | (some _, rest) => quotedBreaks began rest.bound rest
    | (none, _) => throw (.within .escape began (.unknownEscape c.peek) c.mark)

/-- The characters that stand for themselves inside either quotes. -/
def isOrdinary (x : Char) : Bool := !(x == '\x27' || x == '"' || x == '\\' || isGap x)

/-- Read up to the closing quote, piece by piece; `fuel` bounds the number of pieces. -/
def quotedPieces (double : Bool) (began : Mark) : Nat → Cursor → Except Fault (List Char × Cursor)
  | 0, c => .ok ([], c)
  | fuel + 1, c =>
    let quote := if double then '"' else '\x27'
    if !double && c.peek == quote && c.peekAt 1 == quote then do
      let (more, rest) ← quotedPieces double began fuel (c.skip 2)
      return (quote :: more, rest)
    else if c.peek == quote then .ok ([], c.next)
    else do
      let (piece, rest) ←
        if isOrdinary c.peek then pure (c.takeWhile isOrdinary)
        else if isGap c.peek then quotedSpace began c
        else if double && c.peek == '\\' then escape began c
        else pure ([c.peek], c.next)
      let (more, rest) ← quotedPieces double began fuel rest
      return (piece ++ more, rest)

def quotedScalar (c : Cursor) : Except Fault (String × Cursor) := do
  let (text, rest) ← quotedPieces (c.peek == '"') c.mark c.bound c.next
  return (String.ofList text, rest)

end Columnar.Yaml.Cursor
