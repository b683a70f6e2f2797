import Columnar.Record

/-!
# Document trees

A document is a tree of four kinds of node: a null, a scalar that keeps its text as it was
written, a sequence of children, and a map from keys to children. What a scalar means is not
decided here. `Tree.mapOf` is the way to build a map: it collapses repeated keys.
-/

namespace Columnar

/-- A document or a part of one. -/
inductive Tree
  | null
  | scalar (text : String)
  | sequence (items : List Tree)
  | map (entries : List (String × Tree))
deriving Repr

namespace Tree

/-- The four kinds of node. -/
inductive Kind
  | null
  | scalar
  | sequence
  | map
deriving DecidableEq, Repr

def kind : Tree → Kind
  | .null => .null
  | .scalar _ => .scalar
  | .sequence _ => .sequence
  | .map _ => .map

/-- The map with these entries; a repeated key keeps its first position and its last value. -/
def mapOf (entries : List (String × Tree)) : Tree := .map (Record.ofEntries entries)

/-- The items of a sequence; no other node has any. -/
def items : Tree → List Tree
  | .sequence ts => ts
  | _ => []

/-- The entries of a map; no other node has any. -/
def entries : Tree → List (String × Tree)
  | .map es => es
  | _ => []

/-- The child under a key, if the node is a map that has it. -/
def get? (key : String) (t : Tree) : Option Tree := Record.get? key t.entries

/-- The keys of a map, in order. -/
def keys (t : Tree) : List String := Record.names t.entries

def size : Tree → Nat
  | .sequence ts => ts.length
  | .map es => es.length
  | _ => 0

def isNull : Tree → Bool
  | .null => true
  | _ => false

def isMap : Tree → Bool
  | .map _ => true
  | _ => false

mutual

/-- Are two trees the same, the order of keys included? -/
def same : Tree → Tree → Bool
  | .null, .null => true
  | .scalar s, .scalar t => s == t
  | .sequence xs, .sequence ys => sameItems xs ys
  | .map xs, .map ys => sameEntries xs ys
  | _, _ => false

def sameItems : List Tree → List Tree → Bool
  | [], [] => true
  | x :: xs, y :: ys => same x y && sameItems xs ys
  | _, _ => false

def sameEntries : List (String × Tree) → List (String × Tree) → Bool
  | [], [] => true
  | (k, x) :: xs, (l, y) :: ys => k == l && same x y && sameEntries xs ys
  | _, _ => false

end

mutual

theorem eq_of_same : ∀ {s t : Tree}, same s t = true → s = t
  | .null, .null, _ => rfl
  | .scalar a, .scalar b, h => by simp [same] at h; rw [h]
  | .sequence xs, .sequence ys, h =>
    congrArg Tree.sequence (eq_of_sameItems (by simpa [same] using h))
  | .map xs, .map ys, h =>
    congrArg Tree.map (eq_of_sameEntries (by simpa [same] using h))
  | .null, .scalar _, h | .null, .sequence _, h | .null, .map _, h
  | .scalar _, .null, h | .scalar _, .sequence _, h | .scalar _, .map _, h
  | .sequence _, .null, h | .sequence _, .scalar _, h | .sequence _, .map _, h
  | .map _, .null, h | .map _, .scalar _, h | .map _, .sequence _, h => by simp [same] at h

theorem eq_of_sameItems : ∀ {xs ys : List Tree}, sameItems xs ys = true → xs = ys
  | [], [], _ => rfl
  | x :: xs, y :: ys, h => by
    simp only [sameItems, Bool.and_eq_true] at h
    rw [eq_of_same h.1, eq_of_sameItems h.2]
  | [], _ :: _, h | _ :: _, [], h => by simp [sameItems] at h

theorem eq_of_sameEntries :
    ∀ {xs ys : List (String × Tree)}, sameEntries xs ys = true → xs = ys
  | [], [], _ => rfl
  | (k, x) :: xs, (l, y) :: ys, h => by
    simp only [sameEntries, Bool.and_eq_true, beq_iff_eq] at h
    rw [h.1.1, eq_of_same h.1.2, eq_of_sameEntries h.2]
  | [], _ :: _, h | _ :: _, [], h => by simp [sameEntries] at h

end

mutual

theorem same_self : ∀ t : Tree, same t t = true
  | .null => rfl
  | .scalar _ => by simp [same]
  | .sequence xs => by simp [same, sameItems_self xs]
  | .map xs => by simp [same, sameEntries_self xs]

theorem sameItems_self : ∀ xs : List Tree, sameItems xs xs = true
  | [] => rfl
  | x :: xs => by simp [sameItems, same_self x, sameItems_self xs]

theorem sameEntries_self : ∀ xs : List (String × Tree), sameEntries xs xs = true
  | [] => rfl
  | (_, x) :: xs => by simp [sameEntries, same_self x, sameEntries_self xs]

end

instance : DecidableEq Tree := fun s t =>
  if h : same s t = true then isTrue (eq_of_same h)
  else isFalse fun e => h (e ▸ same_self s)

mutual

/-- No map inside the tree names a key twice. -/
def WellFormed : Tree → Prop
  | .null => True
  | .scalar _ => True
  | .sequence xs => AllWellFormed xs
  | .map es => Record.Distinct es ∧ EntriesWellFormed es

def AllWellFormed : List Tree → Prop
  | [] => True
  | x :: xs => WellFormed x ∧ AllWellFormed xs

def EntriesWellFormed : List (String × Tree) → Prop
  | [] => True
  | (_, x) :: xs => WellFormed x ∧ EntriesWellFormed xs

end

end Tree

end Columnar
