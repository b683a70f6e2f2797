import Columnar.Proofs.Yaml.Grammar
import Columnar.Proofs.Yaml.SeparatorTokens

/-!
# Positions do not matter to readers of nodes

Positions are kept with tokens and nodes for the sake of faults only. Two readings whose tokens
have the same lexemes read the same nodes, whatever the positions are, and end alike. This is shown
for each small reader, and for the nodes by induction on the bound on their depth, one case for
each reader; no reader leaves more tokens than it found.
-/

namespace Columnar.Yaml

/-! ## Graphs -/

/-- The node with its position left out. -/
def Node.unmarked : Node → Node
  | .scalar text isNull _ => .scalar text isNull ⟨0, 0, 0⟩
  | .sequence items _ => .sequence items ⟨0, 0, 0⟩
  | .mapping entries _ => .mapping entries ⟨0, 0, 0⟩

/-- What two graphs have in one place, if it is the same but for the position. -/
inductive SameNode : Option Node → Option Node → Prop
  | none : SameNode none none
  | scalar {text isNull m m'} :
      SameNode (some (.scalar text isNull m)) (some (.scalar text isNull m'))
  | sequence {items m m'} : SameNode (some (.sequence items m)) (some (.sequence items m'))
  | mapping {entries m m'} : SameNode (some (.mapping entries m)) (some (.mapping entries m'))

theorem SameNode.of_unmarked {n m : Option Node}
    (h : n.map Node.unmarked = m.map Node.unmarked) : SameNode n m := by
  rcases n with _ | (_ | _ | _) <;> rcases m with _ | (_ | _ | _) <;> cases h <;> constructor

/-- Two graphs have the same nodes, but for their positions. -/
def Graph.Matches (g h : Graph) : Prop := g.nodes.map Node.unmarked = h.nodes.map Node.unmarked

namespace Graph.Matches

variable {g h : Graph}

theorem size (hgh : g.Matches h) : g.nodes.size = h.nodes.size := by
  have hsize := congrArg Array.size hgh
  rwa [Array.size_map, Array.size_map] at hsize

theorem node? (hgh : g.Matches h) (id : Nat) : SameNode (g.node? id) (h.node? id) := by
  have hid := congrArg (·[id]?) hgh
  rw [Array.getElem?_map, Array.getElem?_map] at hid
  exact .of_unmarked hid

theorem add (hgh : g.Matches h) {n m : Node} (hnm : n.unmarked = m.unmarked) :
    (g.add n).1 = (h.add m).1 ∧ (g.add n).2.Matches (h.add m).2 := by
  refine ⟨hgh.size, ?_⟩
  unfold Graph.Matches Graph.add
  rw [Array.map_push, Array.map_push, hgh, hnm]

theorem replace (hgh : g.Matches h) (id : Nat) {n m : Node} (hnm : n.unmarked = m.unmarked) :
    (g.replace id n).Matches (h.replace id m) := by
  unfold Graph.Matches Graph.replace
  rw [Array.map_setIfInBounds, Array.map_setIfInBounds, hgh, hnm]

end Graph.Matches

theorem Alike.mapM {α β : Type} {f g : α → Except Fault β} (xs : List α)
    (h : ∀ x ∈ xs, Alike Eq (f x) (g x)) : Alike Eq (xs.mapM f) (xs.mapM g) := by
  induction xs with
  | nil => exact .ok rfl
  | cons x xs ih =>
    rw [List.mapM_cons, List.mapM_cons]
    refine .bind (h x List.mem_cons_self) ?_
    rintro b _ rfl
    refine .bind (ih fun y hy => h y (List.mem_cons_of_mem _ hy)) ?_
    rintro bs _ rfl
    exact .ok rfl

theorem Graph.Matches.keyText {g h : Graph} (hgh : g.Matches h) (id : Nat) :
    Alike Eq (g.keyText id) (h.keyText id) := by
  have hnode := hgh.node? id
  unfold Graph.keyText
  generalize g.node? id = n at hnode ⊢
  generalize h.node? id = m at hnode ⊢
  cases hnode with
  | none | scalar => exact .ok rfl
  | sequence | mapping => exact .fault rfl

theorem Graph.Matches.unfoldFrom {g h : Graph} (hgh : g.Matches h) (fuel : Nat)
    (active : List Nat) (id : Nat) :
    Alike Eq (g.unfoldFrom fuel active id) (h.unfoldFrom fuel active id) := by
  induction fuel generalizing active id with
  | zero =>
    have hnode := hgh.node? id
    unfold Graph.unfoldFrom
    generalize g.node? id = n at hnode ⊢
    generalize h.node? id = m at hnode ⊢
    cases hnode with
    | none | scalar => exact .ok rfl
    | sequence | mapping => exact .ite (fun _ => .fault rfl) fun _ => .fault rfl
  | succ fuel ih =>
    have hnode := hgh.node? id
    unfold Graph.unfoldFrom
    generalize g.node? id = n at hnode ⊢
    generalize h.node? id = m at hnode ⊢
    cases hnode with
    | none | scalar => exact .ok rfl
    | sequence =>
      refine .ite (fun _ => .fault rfl) fun _ => .bind (.mapM _ fun item _ => ih _ item) ?_
      rintro ts _ rfl
      exact .ok rfl
    | mapping =>
      refine .ite (fun _ => .fault rfl) fun _ => .bind (.mapM _ fun entry _ => ?_) ?_
      · refine .bind (hgh.keyText entry.1) ?_
        rintro key _ rfl
        refine .bind (ih _ entry.2) ?_
        rintro t _ rfl
        exact .ok rfl
      · rintro ts _ rfl
        exact .ok rfl

theorem Graph.Matches.unfold {g h : Graph} (hgh : g.Matches h) (root : Nat) :
    Alike Eq (g.unfold root) (h.unfold root) := by
  unfold Graph.unfold
  rw [hgh.size]
  exact hgh.unfoldFrom _ _ _

/-! ## Readers -/

/-- Two readings have the same lexemes left, at most `n` of them, and end in the same way; inside
a document they also agree in all that was read of it. -/
structure Reading.Matches (inside : Prop) (n : Nat) (s t : Reading) : Prop where
  stream : s.stream.Matches t.stream
  left : s.stream.tokens.length ≤ n
  handles : inside → s.handles = t.handles
  anchors : inside → s.anchors = t.anchors
  graph : inside → s.graph.Matches t.graph

theorem TokenStream.Matches.length {x y : TokenStream} (h : x.Matches y) :
    x.tokens.length = y.tokens.length := by
  have hlength := congrArg List.length h.lexemes
  rwa [List.length_map, List.length_map] at hlength

theorem TokenStream.Matches.drop {x y : TokenStream} (h : x.Matches y) (n : Nat) :
    Matches { x with tokens := x.tokens.drop n } { y with tokens := y.tokens.drop n } where
  lexemes := by
    rw [List.map_drop, List.map_drop, h.lexemes]
  fault := h.fault

namespace Read

/-- From matching readings on two readers end alike, with related results and readings. -/
structure EndsAlike {α β : Type} (inside : Prop) (n : Nat)
    (S : α × Reading → β × Reading → Prop) (m : Read α) (k : Read β) : Prop where
  ends : ∀ s t, Reading.Matches inside n s t → Alike S (m s) (k t)

/-- From matching readings on two readers end alike, with related results and in matching
readings. -/
abbrev Agree {α β : Type} (inside : Prop) (n : Nat) (R : α → β → Prop) (m : Read α)
    (k : Read β) : Prop :=
  EndsAlike inside n (fun p q => R p.1 q.1 ∧ Reading.Matches inside n p.2 q.2) m k

namespace EndsAlike

variable {α β γ δ : Type} {inside : Prop} {n : Nat} {R : α → β → Prop}
  {S : α × Reading → β × Reading → Prop} {T : γ × Reading → δ × Reading → Prop}
  {m : Read α} {k : Read β}

theorem pure {a : α} {b : β} (h : R a b) : Agree inside n R (pure a) (pure b) :=
  ⟨fun _ _ hst => .ok ⟨h, hst⟩⟩

theorem bind {f : α → Read γ} {g : β → Read δ} (hm : Agree inside n R m k)
    (hf : ∀ a b, R a b → EndsAlike inside n T (f a) (g b)) :
    EndsAlike inside n T (m >>= f) (k >>= g) :=
  ⟨fun s t hst => .bind (hm.ends s t hst) fun p q hpq =>
    (hf p.1 q.1 hpq.1).ends p.2 q.2 hpq.2⟩

theorem marked {context context' : Option Context} {began began' : Option Mark}
    {problem problem' : Problem} {place place' : Mark} :
    EndsAlike inside n S (throw (.marked context began problem place))
      (throw (.marked context' began' problem' place')) := ⟨fun _ _ _ => .fault rfl⟩

/-- What would be read behind a fault does not matter. -/
theorem thrown {f : α → Read γ} {g : β → Read δ} {context context' : Option Context}
    {began began' : Option Mark} {problem problem' : Problem} {place place' : Mark} :
    EndsAlike inside n T (throw (.marked context began problem place) >>= f)
      (throw (.marked context' began' problem' place') >>= g) := ⟨fun _ _ _ => .fault rfl⟩

theorem ite {p : Prop} [Decidable p] {m' : Read α} {k' : Read β}
    (hm : EndsAlike inside n S m k) (hm' : EndsAlike inside n S m' k') :
    EndsAlike inside n S (if p then m else m') (if p then k else k') := by
  split
  · exact hm
  · exact hm'

theorem get : Agree inside n (Reading.Matches inside n) get get := ⟨fun _ _ h => .ok ⟨h, h⟩⟩

theorem modify {f g : Reading → Reading}
    (h : ∀ s t, Reading.Matches inside n s t → Reading.Matches inside n (f s) (g t)) :
    Agree inside n (fun _ _ => True) (modify f : Read Unit) (modify g : Read Unit) :=
  ⟨fun s t hst => .ok ⟨trivial, h s t hst⟩⟩

end EndsAlike

section
variable {inside : Prop} {n : Nat}

theorem peek_eq (s : Reading) :
    peek s = match s.stream.tokens, s.stream.fault with
      | t :: _, _ => .ok (t, s)
      | [], some fault => .error fault
      | [], none => .ok (⟨.streamEnd, ⟨0, 0, 0⟩⟩, s) := rfl

theorem peek_agree :
    Agree inside n (fun t u : Token => t.lexeme = u.lexeme) peek peek := by
  refine ⟨fun s t h => ?_⟩
  have hlexemes := h.stream.lexemes
  have hfault := h.stream.fault
  rw [peek_eq, peek_eq]
  cases hs : s.stream.tokens with
  | cons a as =>
    cases ht : t.stream.tokens with
    | nil =>
      rw [hs, ht] at hlexemes
      cases hlexemes
    | cons b bs =>
      rw [hs, ht] at hlexemes
      exact .ok ⟨(List.cons.inj hlexemes).1, h⟩
  | nil =>
    cases ht : t.stream.tokens with
    | cons b bs =>
      rw [hs, ht] at hlexemes
      cases hlexemes
    | nil =>
      generalize s.stream.fault = f at hfault ⊢
      generalize t.stream.fault = g at hfault ⊢
      rcases f with _ | f <;> rcases g with _ | g
      · exact .ok ⟨rfl, h⟩
      · cases hfault
      · cases hfault
      · exact .fault (Option.some.inj hfault)

theorem advance_agree : Agree inside n (fun _ _ => True) advance advance :=
  .modify fun _ _ h => {
    stream := h.stream.drop 1
    left := Nat.le_trans (List.length_drop ▸ Nat.sub_le _ 1) h.left
    handles := h.handles
    anchors := h.anchors
    graph := h.graph }

theorem take_agree : Agree inside n (fun t u : Token => t.lexeme = u.lexeme) take take :=
  .bind peek_agree fun _ _ h => .bind advance_agree fun _ _ _ => ⟨fun _ _ hst => .ok ⟨h, hst⟩⟩

end


variable {n : Nat}

theorem addNode_agree {x y : Node} (hxy : x.unmarked = y.unmarked) :
    Agree True n Eq (addNode x) (addNode y) := by
  refine ⟨fun s t h => ?_⟩
  obtain ⟨hid, hgraph⟩ := (h.graph trivial).add hxy
  exact .ok ⟨hid, { h with graph := fun _ => hgraph }⟩

theorem addAnchored_agree (anchor : Option String) {x y : Node} (hxy : x.unmarked = y.unmarked) :
    Agree True n Eq (addAnchored anchor x) (addAnchored anchor y) := by
  refine .bind .get fun s t h => ?_
  cases anchor with
  | none => exact addNode_agree hxy
  | some name =>
    dsimp only
    rw [h.anchors trivial]
    cases t.anchors.lookup name with
    | some first => exact .marked
    | none =>
      refine .bind (addNode_agree hxy) ?_
      rintro id _ rfl
      refine .bind (.modify fun s t h => ?_) fun _ _ _ => .pure rfl
      exact { h with anchors := fun _ => congrArg ((name, id) :: ·) (h.anchors trivial) }

theorem fill_agree (id : Nat) {x y : Node} (hxy : x.unmarked = y.unmarked) :
    Agree True n Eq (fill id x) (fill id y) := by
  refine .bind (.modify fun s t h => ?_) fun _ _ _ => .pure rfl
  exact { h with graph := fun _ => (h.graph trivial).replace id hxy }

theorem findAnchor_agree (name : String) (place place' : Mark) :
    Agree True n Eq (findAnchor name place) (findAnchor name place') := by
  refine .bind .get fun s t h => ?_
  rw [h.anchors trivial]
  cases t.anchors.lookup name with
  | some id => exact .pure rfl
  | none => exact .marked

theorem emptyNode_agree (mark mark' : Mark) :
    Agree True n Eq (emptyNode mark) (emptyNode mark') := addNode_agree rfl

theorem emptyNode_peek_agree :
    Agree True n Eq (do emptyNode (← peek).mark) (do emptyNode (← peek).mark) :=
  .bind peek_agree fun _ _ _ => emptyNode_agree _ _

theorem resolveTag_agree (began began' place place' : Mark) (handle : Option String)
    (suffix : String) :
    Agree True n Eq (resolveTag began place handle suffix)
      (resolveTag began' place' handle suffix) := by
  unfold resolveTag
  cases handle with
  | none => exact .pure rfl
  | some handle =>
    refine .bind .get fun s t h => ?_
    rw [h.handles trivial]
    cases t.handles.lookup handle with
    | some base => exact .pure rfl
    | none => exact .marked

/-- Two properties differ at most in where they begin. -/
def SameProperties (p q : Properties) : Prop := p.anchor = q.anchor ∧ p.tag = q.tag

theorem properties_agree : Agree True n SameProperties properties properties := by
  have htag (a b c d e f : Mark) (anchor : Option String) (handle : Option String)
      (suffix : String) :
      Agree True n SameProperties
        (do return ⟨anchor, some (← resolveTag a b handle suffix), some c⟩)
        (do return ⟨anchor, some (← resolveTag d e handle suffix), some f⟩) :=
    .bind (resolveTag_agree ..) fun _ _ h => .pure ⟨rfl, congrArg some h⟩
  refine .bind peek_agree fun t u h => ?_
  obtain ⟨lexeme, mark⟩ := t
  obtain ⟨_, mark'⟩ := u
  cases h
  dsimp only
  split
  · refine .bind advance_agree fun _ _ _ => .bind peek_agree fun t u h => ?_
    rw [h]
    split
    · exact .bind advance_agree fun _ _ _ => htag ..
    · exact .pure ⟨rfl, rfl⟩
  · refine .bind advance_agree fun _ _ _ => .bind peek_agree fun t u h => ?_
    rw [h]
    split
    · exact .bind advance_agree fun _ _ _ => htag ..
    · exact htag ..
  · exact .pure ⟨rfl, rfl⟩

/-- A collection: its node, the token that starts it, and its children. -/
theorem collection_agree {α : Type} (make : List α → Mark → Node)
    (hmake : ∀ xs m m', (make xs m).unmarked = (make xs m').unmarked) {anchor : Option String}
    {mark mark' : Mark} {items items' : Read (List α)} (hitems : Agree True n Eq items items') :
    Agree True n Eq
      (do
        let id ← addAnchored anchor (make [] mark)
        advance
        fill id (make (← items) mark))
      (do
        let id ← addAnchored anchor (make [] mark')
        advance
        fill id (make (← items') mark')) := by
  refine .bind (addAnchored_agree anchor (hmake ..)) ?_
  rintro id _ rfl
  refine .bind advance_agree fun _ _ _ => .bind hitems ?_
  rintro xs _ rfl
  exact fill_agree id (hmake ..)

/-- A node, and what follows it. -/
theorem cons_agree {α : Type} {x y : Read α} {xs ys : Read (List α)} (h : Agree True n Eq x y)
    (hs : Agree True n Eq xs ys) :
    Agree True n Eq (do let a ← x; return a :: (← xs)) (do let a ← y; return a :: (← ys)) := by
  refine .bind h ?_
  rintro a _ rfl
  refine .bind hs ?_
  rintro as _ rfl
  exact .pure rfl

/-- All readers of nodes within a bound on their depth agree with themselves, wherever what they
read began. -/
structure NodesAgree (n fuel : Nat) : Prop where
  node : ∀ position, Agree True n Eq (node position fuel) (node position fuel)
  content : ∀ position props props', SameProperties props props' →
    Agree True n Eq (content position props fuel) (content position props' fuel)
  nodeUnless : ∀ stop position,
    Agree True n Eq (nodeUnless stop position fuel) (nodeUnless stop position fuel)
  valueUnless : ∀ stop position,
    Agree True n Eq (valueUnless stop position fuel) (valueUnless stop position fuel)
  blockItems : ∀ began began', Agree True n Eq (blockItems began fuel) (blockItems began' fuel)
  unindentedItems : Agree True n Eq (unindentedItems fuel) (unindentedItems fuel)
  blockEntries : ∀ began began',
    Agree True n Eq (blockEntries began fuel) (blockEntries began' fuel)
  flowItems : ∀ began began' first,
    Agree True n Eq (flowItems began first fuel) (flowItems began' first fuel)
  flowEntries : ∀ began began' first,
    Agree True n Eq (flowEntries began first fuel) (flowEntries began' first fuel)

theorem nodesAgree_zero : NodesAgree n 0 where
  node _ := emptyNode_peek_agree
  content _ _ _ _ := emptyNode_peek_agree
  nodeUnless _ _ := emptyNode_peek_agree
  valueUnless _ _ := emptyNode_peek_agree
  blockItems _ _ := .pure rfl
  unindentedItems := .pure rfl
  blockEntries _ _ := .pure rfl
  flowItems _ _ _ := .pure rfl
  flowEntries _ _ _ := .pure rfl

section
variable {fuel : Nat} (ih : NodesAgree n fuel)
include ih

theorem NodesAgree.node_succ (position : Position) :
    Agree True n Eq (Read.node position (fuel + 1)) (Read.node position (fuel + 1)) := by
  unfold Read.node
  refine .bind peek_agree fun t u h => ?_
  rw [h]
  split
  · exact .bind advance_agree fun _ _ _ => findAnchor_agree ..
  · exact .bind properties_agree fun _ _ hprops => ih.content position _ _ hprops

theorem NodesAgree.content_succ (position : Position) (props props' : Properties)
    (hprops : SameProperties props props') :
    Agree True n Eq (Read.content position props (fuel + 1))
      (Read.content position props' (fuel + 1)) := by
  obtain ⟨hanchor, htag⟩ := hprops
  unfold Read.content
  refine .bind peek_agree fun t u h => ?_
  rw [hanchor, htag, h]
  dsimp only
  split
  · refine .bind (addAnchored_agree _ rfl) ?_
    rintro id _ rfl
    refine .bind ih.unindentedItems ?_
    rintro items _ rfl
    exact fill_agree id rfl
  · exact .bind advance_agree fun _ _ _ => addAnchored_agree _ rfl
  · exact collection_agree .sequence (fun _ _ _ => rfl) (ih.flowItems ..)
  · exact collection_agree .mapping (fun _ _ _ => rfl) (ih.flowEntries ..)
  · exact collection_agree .sequence (fun _ _ _ => rfl) (ih.blockItems ..)
  · exact collection_agree .sequence (fun _ _ _ => rfl) (ih.blockItems ..)
  · exact collection_agree .mapping (fun _ _ _ => rfl) (ih.blockEntries ..)
  · exact collection_agree .mapping (fun _ _ _ => rfl) (ih.blockEntries ..)
  · exact .ite (addAnchored_agree _ rfl) .marked

theorem NodesAgree.nodeUnless_succ (stop : Lexeme → Bool) (position : Position) :
    Agree True n Eq (Read.nodeUnless stop position (fuel + 1))
      (Read.nodeUnless stop position (fuel + 1)) := by
  refine .bind peek_agree fun t u h => ?_
  rw [h]
  exact .ite (emptyNode_agree _ _) (ih.node position)

theorem NodesAgree.valueUnless_succ (stop : Lexeme → Bool) (position : Position) :
    Agree True n Eq (Read.valueUnless stop position (fuel + 1))
      (Read.valueUnless stop position (fuel + 1)) := by
  refine .bind peek_agree fun t u h => ?_
  rw [h]
  exact .ite (.bind advance_agree fun _ _ _ => ih.nodeUnless stop position) (emptyNode_agree _ _)

theorem NodesAgree.blockItems_succ (began began' : Mark) :
    Agree True n Eq (Read.blockItems began (fuel + 1)) (Read.blockItems began' (fuel + 1)) := by
  refine .bind take_agree fun t u h => ?_
  rw [h]
  split
  · exact cons_agree (ih.nodeUnless ..) (ih.blockItems began began')
  · exact .pure rfl
  · exact .marked

theorem NodesAgree.unindentedItems_succ :
    Agree True n Eq (Read.unindentedItems (fuel + 1)) (Read.unindentedItems (fuel + 1)) := by
  refine .bind peek_agree fun t u h => ?_
  rw [h]
  exact .ite (.bind advance_agree fun _ _ _ => cons_agree (ih.nodeUnless ..) ih.unindentedItems)
    (.pure rfl)

/-- A key with its value, and the entries behind them. -/
theorem NodesAgree.entry {stop stop' : Lexeme → Bool} {position position' : Position}
    {more more' : Read (List (Nat × Nat))} (hmore : Agree True n Eq more more') :
    Agree True n Eq
      (do
        let key ← Read.nodeUnless stop position fuel
        let value ← Read.valueUnless stop' position' fuel
        return (key, value) :: (← more))
      (do
        let key ← Read.nodeUnless stop position fuel
        let value ← Read.valueUnless stop' position' fuel
        return (key, value) :: (← more')) := by
  refine .bind (ih.nodeUnless ..) ?_
  rintro key _ rfl
  refine .bind (ih.valueUnless ..) ?_
  rintro value _ rfl
  refine .bind hmore ?_
  rintro entries _ rfl
  exact .pure rfl

theorem NodesAgree.blockEntries_succ (began began' : Mark) :
    Agree True n Eq (Read.blockEntries began (fuel + 1)) (Read.blockEntries began' (fuel + 1)) := by
  refine .bind take_agree fun t u h => ?_
  rw [h]
  split
  · exact ih.entry (ih.blockEntries began began')
  · exact .pure rfl
  · exact .marked

theorem NodesAgree.flowItems_succ (began began' : Mark) (first : Bool) :
    Agree True n Eq (Read.flowItems began first (fuel + 1))
      (Read.flowItems began' first (fuel + 1)) := by
  have hitems : Agree True n Eq (flowItemsFrom began fuel) (flowItemsFrom began' fuel) := by
    refine .bind peek_agree fun t u h => ?_
    rw [h]
    split
    · exact .bind advance_agree fun _ _ _ => .pure rfl
    · refine .bind (addNode_agree rfl) ?_
      rintro id _ rfl
      refine .bind advance_agree fun _ _ _ => .bind (ih.nodeUnless ..) ?_
      rintro key _ rfl
      refine .bind (ih.valueUnless ..) ?_
      rintro value _ rfl
      exact cons_agree (fill_agree id rfl) (ih.flowItems ..)
    · exact cons_agree (ih.node _) (ih.flowItems ..)
  rw [flowItems_eq, flowItems_eq]
  refine .bind peek_agree fun t u h => ?_
  rw [h]
  refine .ite ?_ hitems
  exact .ite (.bind advance_agree fun _ _ _ => hitems) .thrown

theorem NodesAgree.flowEntries_succ (began began' : Mark) (first : Bool) :
    Agree True n Eq (Read.flowEntries began first (fuel + 1))
      (Read.flowEntries began' first (fuel + 1)) := by
  have hentries : Agree True n Eq (flowEntriesFrom began fuel) (flowEntriesFrom began' fuel) := by
    refine .bind peek_agree fun t u h => ?_
    rw [h]
    split
    · exact .bind advance_agree fun _ _ _ => .pure rfl
    · exact .bind advance_agree fun _ _ _ => ih.entry (ih.flowEntries ..)
    · refine .bind (ih.node _) ?_
      rintro key _ rfl
      refine .bind peek_agree fun _ _ _ => .bind (emptyNode_agree _ _) ?_
      rintro value _ rfl
      refine .bind (ih.flowEntries ..) ?_
      rintro entries _ rfl
      exact .pure rfl
  rw [flowEntries_eq, flowEntries_eq]
  refine .bind peek_agree fun t u h => ?_
  rw [h]
  refine .ite ?_ hentries
  exact .ite (.bind advance_agree fun _ _ _ => hentries) .thrown

end

theorem nodesAgree (fuel : Nat) : NodesAgree n fuel := by
  induction fuel with
  | zero => exact nodesAgree_zero
  | succ fuel ih =>
    exact {
      node := ih.node_succ
      content := ih.content_succ
      nodeUnless := ih.nodeUnless_succ
      valueUnless := ih.valueUnless_succ
      blockItems := ih.blockItems_succ
      unindentedItems := ih.unindentedItems_succ
      blockEntries := ih.blockEntries_succ
      flowItems := ih.flowItems_succ
      flowEntries := ih.flowEntries_succ }

end Read

end Columnar.Yaml
