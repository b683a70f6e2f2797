import Columnar.Text.Blank
import Columnar.Text.Digit
import Columnar.Text.Quoted
import Columnar.Scalar.Literal
import Columnar.Tree

/-!
# Paths into documents

A path starts with `$` and goes down by keys, each behind a point, and by indexes in brackets. In
a key, quotes of either kind switch to and from a part in which points and brackets stand for
themselves, and a backslash makes the next character stand for itself. A path is compiled before
any document is looked at, and a malformed path is an error then; afterwards a path finds a node
or finds nothing.
-/

namespace Columnar

/-- One step down. -/
inductive Component
  | key (name : String)
  | index (i : Int)
deriving DecidableEq, Repr

/-- A compiled path with the text that it was written as. -/
structure Path where
  text : String
  components : List Component
deriving DecidableEq, Repr

/-- Why a text is no path. -/
inductive PathError
  /-- It does not start at the root. -/
  | noRoot (text : String)
  /-- A bracket is never closed. -/
  | unclosedIndex (text : String)
  /-- What stands in brackets is no integer. -/
  | badIndex (raw text : String)
deriving DecidableEq, Repr

def PathError.message : PathError → String
  | .noRoot text => "Path must start with '$': " ++ Text.quoted text
  | .unclosedIndex text => "Unclosed array index in path: " ++ Text.quoted text
  | .badIndex raw text =>
    "Invalid array index " ++ Text.quoted raw ++ " in path: " ++ Text.quoted text

namespace Path

/-- An index with more digits than this addresses nothing. -/
def indexDigitLimit : Nat := 18

/-- The index that the text in brackets writes. One with too many digits becomes -1, which finds
nothing. -/
def index? (raw : List Char) : Option Int :=
  let cs := Text.trim raw
  (Scalar.integerLiteral? cs).map fun i =>
    if indexDigitLimit < (Scalar.spanSign cs).2.length then -1 else i

/-- Where the reader stands. -/
inductive Mode
  /-- Inside a key; within quotes or not. -/
  | key (inQuotes : Bool)
  /-- Behind a backslash; within quotes or not. -/
  | escaped (inQuotes : Bool)
  /-- Inside brackets, with the text read there so far. -/
  | index (raw : List Char)
deriving DecidableEq, Repr

/-- What was read so far: the finished components and the characters of the key being read. -/
structure Progress where
  mode : Mode
  components : List Component
  current : List Char
deriving DecidableEq, Repr

namespace Progress

def start : Progress := ⟨.key false, [], []⟩

/-- The components with the key being read, unless it is empty. -/
def finish (p : Progress) : List Component :=
  if p.current.isEmpty then p.components
  else p.components ++ [.key (String.ofList p.current)]

/-- One more character. An index that cannot be read is returned as the error. -/
def step (p : Progress) (c : Char) : Except (List Char) Progress :=
  match p.mode with
  | .escaped inQuotes => .ok { p with mode := .key inQuotes, current := p.current ++ [c] }
  | .index raw =>
    if c = ']' then
      match index? raw with
      | some i => .ok ⟨.key false, p.components ++ [.index i], []⟩
      | none => .error raw
    else .ok { p with mode := .index (raw ++ [c]) }
  | .key inQuotes =>
    if c = '\\' then .ok { p with mode := .escaped inQuotes }
    else if c = '\x27' ∨ c = '"' then .ok { p with mode := .key (!inQuotes) }
    else if inQuotes ∨ (c ≠ '.' ∧ c ≠ '[') then .ok { p with current := p.current ++ [c] }
    else .ok ⟨if c = '[' then .index [] else .key false, p.finish, []⟩

/-- All characters of a text, one by one. -/
def run (p : Progress) : List Char → Except (List Char) Progress
  | [] => .ok p
  | c :: rest =>
    match p.step c with
    | .ok q => q.run rest
    | .error raw => .error raw

end Progress

/-- The path that a text writes. -/
def compile (text : String) : Except PathError Path :=
  match text.toList with
  | '$' :: rest =>
    match Progress.start.run rest with
    | .error raw => .error (.badIndex (String.ofList raw) text)
    | .ok p =>
      match p.mode with
      | .index _ => .error (.unclosedIndex text)
      | _ => .ok ⟨text, p.finish⟩
  | _ => .error (.noRoot text)

def Component.child? (node : Tree) : Component → Option Tree
  | .key name => node.get? name
  | .index i => if i < 0 then none else node.items[i.toNat]?

def follow (p : Path) (root : Tree) : Option Tree :=
  p.components.foldlM Component.child? root

end Path

end Columnar
