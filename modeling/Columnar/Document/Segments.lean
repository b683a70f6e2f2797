import Columnar.Notice
import Columnar.Text.Blank
import Columnar.Text.Lines
import Columnar.Text.Utf8

/-!
# Segments of a stream

Where a stream does not parse as a whole, it is cut into segments at its separator lines, those
that are `---` with nothing but blanks behind, and each segment is looked at by itself. A separator
on the first line makes no empty segment before it. Bytes are cut by the same rule before they are
decoded, so that one segment that is no text costs nothing else; the blanks there are those of
ASCII.
-/

namespace Columnar.Document

open Text

def separator : List Char := ['-', '-', '-']

def isSeparator (line : List Char) : Bool := trimRight line == separator

def isSeparatorBytes (line : List UInt8) : Bool :=
  dropBack isBlankByte line == [0x2D, 0x2D, 0x2D]

/-- The groups of lines between separator lines. A separator on the first line starts the first
group. -/
def groupLines {α : Type} (isSeparator : List α → Bool) (lines : List (List α)) :
    List (List (List α)) :=
  let groups := lines.splitOnP isSeparator
  if lines.head?.any isSeparator then groups.drop 1 else groups

/-- The segments of a text, whose line breaks are unified. -/
def segments (cs : List Char) : List (List Char) := (groupLines isSeparator (lines cs)).map unlines

def segmentTexts (text : String) : List String := (segments text.toList).map String.ofList

/-- The segments of bytes, not decoded yet. -/
def byteSegments (bytes : List UInt8) : List (List UInt8) :=
  let lf : UInt8 := 0x0A
  (groupLines isSeparatorBytes ((unifyBreaks 0x0D lf bytes).splitOn lf)).map [lf].intercalate

/-- The segments that decode, numbered from `n`; those that do not are noted. -/
def decodeEach : Nat → List (List UInt8) → Noted (List (List Char))
  | _, [] => pure []
  | n, bytes :: rest =>
    match Utf8.decode bytes with
    | .ok segment => do return segment :: (← decodeEach (n + 1) rest)
    | .error fault => do
      Noted.note (.undecodable n fault.message)
      decodeEach (n + 1) rest

/-- The segments of bytes that are text. -/
def decodedSegments (bytes : List UInt8) : Noted (List (List Char)) :=
  decodeEach 0 (byteSegments bytes)

end Columnar.Document
