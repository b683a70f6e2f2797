import Columnar.Tree
import Columnar.Yaml.Fault

/-!
# Node graphs

A document of a YAML text is a graph: a node with an anchor may be used in several places, and a
collection may even contain itself. `Graph.unfold` turns a graph into a tree. A shared node is
unfolded anew at each place; a collection met again on the path down to it makes the graph cyclic,
which is a fault. The keys of a mapping are scalars; a collection as a key is refused.
-/

namespace Columnar.Yaml

/-- A node of a graph, with the position where it starts. Children are given by their numbers. -/
inductive Node
  | scalar (text : String) (isNull : Bool) (mark : Mark)
  | sequence (items : List Nat) (mark : Mark)
  | mapping (entries : List (Nat × Nat)) (mark : Mark)
deriving DecidableEq, Repr

def Node.mark : Node → Mark
  | .scalar _ _ m => m
  | .sequence _ m => m
  | .mapping _ m => m

/-- Nodes by number. -/
structure Graph where
  nodes : Array Node
deriving DecidableEq, Repr

namespace Graph

def empty : Graph := ⟨#[]⟩

def node? (g : Graph) (id : Nat) : Option Node := g.nodes[id]?

def add (g : Graph) (n : Node) : Nat × Graph := (g.nodes.size, ⟨g.nodes.push n⟩)

/-- Put a node in the place of another one. -/
def replace (g : Graph) (id : Nat) (n : Node) : Graph := ⟨g.nodes.setIfInBounds id n⟩

/-- The text of a key, whether or not it is a null. -/
def keyText (g : Graph) (id : Nat) : Except Fault String :=
  match g.node? id with
  | some (.scalar text _ _) => .ok text
  | some _ => .error (.refused .collectionKey)
  | none => .ok ""

/-- The tree below a node. `active` are the collections on the path to it; `fuel` bounds how many
more of them there can be. -/
def unfoldFrom (g : Graph) : Nat → List Nat → Nat → Except Fault Tree
  | fuel, active, id =>
    match g.node? id with
    | none => .ok .null
    | some (.scalar text isNull _) => .ok (if isNull then .null else .scalar text)
    | some (.sequence items mark) =>
      if id ∈ active then .error (.recursive mark)
      else
        match fuel with
        | 0 => .error (.recursive mark)
        | fuel + 1 => do
          return .sequence (← items.mapM fun item => unfoldFrom g fuel (id :: active) item)
    | some (.mapping entries mark) =>
      if id ∈ active then .error (.recursive mark)
      else
        match fuel with
        | 0 => .error (.recursive mark)
        | fuel + 1 => do
          return Tree.mapOf (← entries.mapM fun entry => do
            let key ← g.keyText entry.1
            let t ← unfoldFrom g fuel (id :: active) entry.2
            return (key, t))

/-- The tree below a node. A path without repetition is at most as long as there are nodes. -/
def unfold (g : Graph) (root : Nat) : Except Fault Tree := g.unfoldFrom g.nodes.size [] root

end Graph

end Columnar.Yaml
