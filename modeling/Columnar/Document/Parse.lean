import Columnar.Document.FrontMatter
import Columnar.Yaml.Stream

/-!
# Reading documents

A text is read as one stream of documents. Strict reading fails with the first fault. Tolerant
reading falls back on the segments of the stream: each is read by itself, and those with a fault
are left out, with a notice. A stream with a refused construct fails in either way. How deep a text
is nested does not matter; a stack of limited size, which a very deep text may use up, is not
described.
-/

namespace Columnar.Document

open Yaml (Fault)

/-- What is read: text, or bytes that should decode to text. -/
inductive Input
  | text (s : String)
  | bytes (bs : List UInt8)
deriving DecidableEq, Repr

/-- How to read: whether to leave out what has a fault, and whether a stream may hold more than
one document. -/
structure Mode where
  tolerant : Bool := false
  multiple : Bool := true
deriving DecidableEq, Repr

/-- Why reading failed. -/
inductive ParseError
  /-- The text has a fault. -/
  | fault (f : Fault) (source : List Char)
  /-- The bytes are no text. -/
  | encoding (f : Text.Utf8Fault)
  /-- The text has a construct that is refused. -/
  | refused (r : Yaml.Refusal)
deriving DecidableEq, Repr

def ParseError.message : ParseError → String
  | .fault f source => "Error parsing YAML: " ++ f.describe source
  | .encoding f => "Error parsing YAML: " ++ f.message
  | .refused r => r.message

def ParseError.ofFault (source : List Char) : Fault → ParseError
  | .refused r => .refused r
  | f => .fault f source

/-- The documents of a text read as a whole. -/
def readWhole (multiple : Bool) (source : List Char) : Except Fault (List Tree) :=
  if multiple then Yaml.readStream source else Yaml.readSingle source

/-- Is the segment left out unread? It is if it is blank, or if its first character that is not
blank starts a comment. Behind that comment there may be documents, and they are lost. -/
def isSkipped (segment : List Char) : Bool :=
  match Text.trim segment with
  | [] => true
  | c :: _ => c == '#'

/-- The text of a segment with the separator put back in front of it, unless it is the first one
or starts with a separator of its own. -/
def segmentSource (n : Nat) (segment : List Char) : List Char :=
  if n = 0 ∨ separator.isPrefixOf segment then segment else separator ++ '\n' :: segment

/-- What becomes of a segment. -/
inductive SegmentResult
  | skipped
  | kept (documents : List Tree)
  | discarded (reason : String)
  | refused (r : Yaml.Refusal)

/-- Read a segment by itself; of its documents, nulls do not count. -/
def readSegment (n : Nat) (segment : List Char) : SegmentResult :=
  if isSkipped segment then .skipped
  else
    let source := segmentSource n segment
    match Yaml.readStream source with
    | .ok documents => .kept (documents.filter fun t => !t.isNull)
    | .error (.refused r) => .refused r
    | .error f => .discarded (f.describe source)

/-- The documents of segments numbered from `n`, each read by itself; a refused construct ends the
reading. -/
def readSegments : Nat → List (List Char) → Noted (Except ParseError (List Tree))
  | _, [] => pure (.ok [])
  | n, segment :: rest =>
    match readSegment n segment with
    | .skipped => readSegments (n + 1) rest
    | .kept documents => do return (← readSegments (n + 1) rest).map (documents ++ ·)
    | .discarded reason => do
      Noted.note (.discarded n reason)
      readSegments (n + 1) rest
    | .refused r => pure (.error (.refused r))

def salvageSegments (segments : List (List Char)) : Noted (Except ParseError (List Tree)) := do
  let outcome ← readSegments 0 segments
  if outcome matches .ok [] then Noted.note (.nothingSalvaged segments.length)
  return outcome

def salvage (source : List Char) : Noted (Except ParseError (List Tree)) :=
  salvageSegments (segments (Text.unifyBreaks '\r' '\n' source))

def parseText (mode : Mode) (source : List Char) : Noted (Except ParseError (List Tree)) :=
  match readWhole mode.multiple source with
  | .ok documents => pure (.ok documents)
  | .error f =>
    match mode.tolerant, ParseError.ofFault source f with
    | true, .fault f source => do
      Noted.note (.streamFailed (f.describe source))
      salvage source
    | _, e => pure (.error e)

/-- The documents of an input. -/
def parse (mode : Mode) : Input → Noted (Except ParseError (List Tree))
  | .text s => parseText mode s.toList
  | .bytes bs =>
    match Text.Utf8.decode bs with
    | .ok source => parseText mode source
    | .error f =>
      if mode.tolerant then do
        Noted.note (.notUtf8 f.message)
        salvageSegments (← decodedSegments bs)
      else pure (.error (.encoding f))

/-- Does the input hold a document, read strictly? A refused construct is no answer. -/
def holdsDocument (multiple : Bool) (input : Input) : Except ParseError Bool :=
  match (parse { tolerant := false, multiple } input).result with
  | .ok documents => .ok (!documents.isEmpty)
  | .error (.refused r) => .error (.refused r)
  | .error _ => .ok false

/-- The first document of front matter, if there is one. A block of blanks has none. -/
def FrontMatter.document? (mode : Mode) (f : FrontMatter) :
    Noted (Except ParseError (Option Tree)) :=
  if (Text.trim f.block).isEmpty then pure (.ok none)
  else do return (← parseText mode f.block).map List.head?

end Columnar.Document
