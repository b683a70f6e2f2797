import Columnar.Path

/-!
# The cache of compiled paths

Compiled paths are kept by their texts, the most recently compiled first. Compiling a text that is
kept moves it to the front; compiling another one puts it there and drops those beyond the size.
A malformed path leaves the cache as it is. A cache whose size is not positive keeps nothing and
refuses every well-formed path.
-/

namespace Columnar.Path

/-- Why a path was not handed out. -/
inductive CacheError
  /-- The text is no path. -/
  | path (e : PathError)
  /-- The cache has no room for any path. -/
  | noRoom
deriving DecidableEq, Repr

def CacheError.message : CacheError → String
  | .path e => e.message
  | .noRoom => "value too large"

/-- Compiled paths, the most recent first, and how many are kept at most. -/
structure Cache where
  capacity : Int
  paths : List Path
deriving Repr

namespace Cache

/-- How many paths a cache keeps if nothing else is said. -/
def defaultSize : Int := 256

def empty (capacity : Int) : Cache := ⟨capacity, []⟩

def size (c : Cache) : Nat := c.paths.length

def find? (text : String) (c : Cache) : Option Path := c.paths.find? fun p => p.text == text

def contains (text : String) (c : Cache) : Bool := (c.find? text).isSome

/-- Move a kept path to the front. -/
def touch (p : Path) (c : Cache) : Cache :=
  { c with paths := p :: c.paths.filter fun q => q.text != p.text }

/-- Put a new path to the front and drop the least recent ones beyond the size. -/
def insert (p : Path) (c : Cache) : Cache :=
  { c with paths := (p :: c.paths).take c.capacity.toNat }

/-- The compiled path of a text, kept or new, and the cache afterwards. -/
def compile (text : String) (c : Cache) : Except CacheError Path × Cache :=
  match c.find? text with
  | some p => (.ok p, c.touch p)
  | none =>
    match Path.compile text with
    | .error e => (.error (.path e), c)
    | .ok p => if c.capacity < 1 then (.error .noRoom, c) else (.ok p, c.insert p)

end Cache

end Columnar.Path
