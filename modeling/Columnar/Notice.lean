/-!
# Notices

Work that goes on after a fault, or that looks at only a part of its input, says so in notices.
They come in order beside the result, and are there also when the result is an error.
-/

namespace Columnar

/-- How much a notice matters. -/
inductive Level
  | debug
  | warning
deriving DecidableEq, Repr

/-- Something that happened on the way to a result. -/
inductive Notice
  /-- The stream as a whole did not parse. -/
  | streamFailed (reason : String)
  /-- The bytes as a whole are no text. -/
  | notUtf8 (reason : String)
  /-- The bytes of a segment are no text. -/
  | undecodable (segment : Nat) (reason : String)
  /-- A segment did not parse. -/
  | discarded (segment : Nat) (reason : String)
  /-- No segment had a document. -/
  | nothingSalvaged (segments : Nat)
  /-- Inference looked at no further row. -/
  | rowsCapped (rows : Nat)
  /-- Inference looked at no further batch. -/
  | batchesCapped (batches : Nat)
  /-- A schema was inferred. -/
  | inferred (columns documents : Nat)
  /-- A table was read. -/
  | read (rows documents inputs : Nat)
deriving DecidableEq, Repr

namespace Notice

def level : Notice → Level
  | .nothingSalvaged _ => .warning
  | _ => .debug

def text : Notice → String
  | .streamFailed reason => "Stream parse failed, recovering segments: " ++ reason
  | .notUtf8 reason => "Input is not valid UTF-8, recovering segments: " ++ reason
  | .undecodable n reason => "Discarding undecodable segment " ++ toString n ++ ": " ++ reason
  | .discarded n reason => "Discarding segment " ++ toString n ++ ": " ++ reason
  | .nothingSalvaged n => "No valid YAML documents recovered from " ++ toString n ++ " segment(s)"
  | .rowsCapped n => "Sampling stopped after " ++ toString n ++ " row(s)"
  | .batchesCapped n => "Sampling stopped after " ++ toString n ++ " batch(es)"
  | .inferred columns documents =>
    "Inferred " ++ toString columns ++ " column(s) from " ++ toString documents
      ++ " sampled document(s)"
  | .read rows documents inputs =>
    "Read " ++ toString rows ++ " row(s) from " ++ toString documents ++ " document(s) in "
      ++ toString inputs ++ " input(s)"

end Notice

/-- A result with the notices on the way to it. -/
structure Noted (α : Type) where
  result : α
  notices : List Notice
deriving Repr

namespace Noted

instance : Monad Noted where
  pure a := ⟨a, []⟩
  bind x f := ⟨(f x.result).result, x.notices ++ (f x.result).notices⟩

def note (n : Notice) : Noted Unit := ⟨(), [n]⟩

end Noted

end Columnar
