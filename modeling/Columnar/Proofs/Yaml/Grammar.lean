import Columnar.Proofs.Yaml.TokenStream
import Columnar.Yaml.Stream

/-!
# Readers of nodes keep the fault behind the tokens

A reader of nodes only moves over tokens and never touches the fault that they end with. It has
faults of its own, but none that refuses: a refusal is met where the tokens end with it. This is
shown for each small reader, and for the nodes by induction on the bound on their depth, one case
for each reader.
-/

namespace Columnar.Yaml

namespace Read

/-- The reader leaves the fault behind the tokens, and is refused only for that fault. -/
structure KeepsFault {α : Type} (m : Read α) : Prop where
  fault : ∀ s a t, m s = .ok (a, t) → t.stream.fault = s.stream.fault
  refusal : ∀ s r, m s = .error (.refused r) → s.stream.fault = some (.refused r)

namespace KeepsFault

variable {α β : Type} {m : Read α}

theorem pure {a : α} : KeepsFault (pure a : Read α) where
  fault := by
    rintro s _ _ ⟨⟩
    rfl
  refusal := by
    rintro s r ⟨⟩

theorem bind {f : α → Read β} (hm : KeepsFault m) (hf : ∀ a, KeepsFault (f a)) :
    KeepsFault (m >>= f) where
  fault := by
    intro s b u h
    change (m s >>= fun p => f p.1 p.2) = .ok (b, u) at h
    cases hs : m s with
    | error fault =>
      rw [hs] at h
      cases h
    | ok p =>
      rw [hs] at h
      exact ((hf p.1).fault p.2 b u h).trans (hm.fault s p.1 p.2 hs)
  refusal := by
    intro s r h
    change (m s >>= fun p => f p.1 p.2) = .error (.refused r) at h
    cases hs : m s with
    | error fault =>
      rw [hs] at h
      cases h
      exact hm.refusal s r hs
    | ok p =>
      rw [hs] at h
      exact (hm.fault s p.1 p.2 hs).symm.trans ((hf p.1).refusal p.2 r h)

theorem marked {context : Option Context} {began : Option Mark} {problem : Problem}
    {place : Mark} : KeepsFault (throw (.marked context began problem place) : Read α) where
  fault := by
    rintro s _ _ ⟨⟩
  refusal := by
    rintro s r ⟨⟩

theorem ite {p : Prop} [Decidable p] {n : Read α} (hm : KeepsFault m) (hn : KeepsFault n) :
    KeepsFault (if p then m else n) := by
  split
  · exact hm
  · exact hn

theorem get : KeepsFault (get : Read Reading) where
  fault := by
    rintro s _ _ ⟨⟩
    rfl
  refusal := by
    rintro s r ⟨⟩

theorem modify {f : Reading → Reading} (h : ∀ s, (f s).stream.fault = s.stream.fault) :
    KeepsFault (modify f : Read Unit) where
  fault := by
    rintro s _ _ ⟨⟩
    exact h s
  refusal := by
    rintro s r ⟨⟩

end KeepsFault

theorem peek_keepsFault : KeepsFault peek where
  fault := by
    intro s t u h
    unfold peek at h
    split at h <;> cases h <;> rfl
  refusal := by
    intro s r h
    unfold peek at h
    split at h
    · cases h
    · cases h
      assumption
    · cases h

theorem advance_keepsFault : KeepsFault advance := .modify fun _ => rfl

theorem take_keepsFault : KeepsFault take :=
  .bind peek_keepsFault fun _ => .bind advance_keepsFault fun _ => .pure

theorem addNode_keepsFault (n : Node) : KeepsFault (addNode n) where
  fault := by
    rintro s _ _ ⟨⟩
    rfl
  refusal := by
    rintro s r ⟨⟩

theorem addAnchored_keepsFault (anchor : Option String) (n : Node) :
    KeepsFault (addAnchored anchor n) := by
  refine .bind .get fun s => ?_
  split
  · exact addNode_keepsFault n
  split
  · exact .marked
  · exact .bind (addNode_keepsFault n) fun id => .bind (.modify fun _ => rfl) fun _ => .pure

theorem fill_keepsFault (id : Nat) (n : Node) : KeepsFault (fill id n) :=
  .bind (.modify fun _ => rfl) fun _ => .pure

theorem findAnchor_keepsFault (name : String) (place : Mark) :
    KeepsFault (findAnchor name place) := by
  refine .bind .get fun s => ?_
  split
  · exact .pure
  · exact .marked

theorem emptyNode_keepsFault (mark : Mark) : KeepsFault (emptyNode mark) := addNode_keepsFault _

theorem emptyNode_peek_keepsFault : KeepsFault (do emptyNode (← peek).mark) :=
  .bind peek_keepsFault fun _ => emptyNode_keepsFault _

theorem resolveTag_keepsFault (began place : Mark) (handle : Option String) (suffix : String) :
    KeepsFault (resolveTag began place handle suffix) := by
  unfold resolveTag
  split
  · exact .pure
  refine .bind .get fun s => ?_
  split
  · exact .pure
  · exact .marked

theorem properties_keepsFault : KeepsFault properties := by
  have htag (a b : Mark) (handle : Option String) (suffix : String) (f : String → Properties) :
      KeepsFault (do return f (← resolveTag a b handle suffix)) :=
    .bind (resolveTag_keepsFault ..) fun _ => .pure
  refine .bind peek_keepsFault fun t => ?_
  split
  · refine .bind advance_keepsFault fun _ => .bind peek_keepsFault fun u => ?_
    split
    · exact .bind advance_keepsFault fun _ => htag ..
    · exact .pure
  · refine .bind advance_keepsFault fun _ => .bind peek_keepsFault fun u => ?_
    split
    · exact .bind advance_keepsFault fun _ => htag ..
    · exact htag ..
  · exact .pure

/-! ## Flow collections behind a comma -/

/-- The items of a flow sequence from the start of one on. -/
def flowItemsFrom (began : Mark) (fuel : Nat) : Read (List Nat) := do
  let t ← peek
  match t.lexeme with
  | .flowSequenceEnd =>
    advance
    return []
  | .key =>
    let id ← addNode (.mapping [] t.mark)
    advance
    let key ← nodeUnless (endsFlowKey .flowSequenceEnd) .flow fuel
    let value ← valueUnless (endsFlowValue .flowSequenceEnd) .flow fuel
    let item ← fill id (.mapping [(key, value)] t.mark)
    return item :: (← flowItems began false fuel)
  | _ =>
    let item ← node .flow fuel
    return item :: (← flowItems began false fuel)

theorem flowItems_eq (began : Mark) (first : Bool) (fuel : Nat) :
    flowItems began first (fuel + 1) = (do
      let t ← peek
      if t.lexeme != .flowSequenceEnd && !first then
        if t.lexeme == .flowEntry then advance
        else throw (.within .flowSequence began (.expectedSequenceEnd t.lexeme.name) t.mark)
      flowItemsFrom began fuel) := by
  conv => lhs; unfold flowItems
  rfl

/-- The entries of a flow mapping from the start of one on. -/
def flowEntriesFrom (began : Mark) (fuel : Nat) : Read (List (Nat × Nat)) := do
  let t ← peek
  match t.lexeme with
  | .flowMappingEnd =>
    advance
    return []
  | .key =>
    advance
    let key ← nodeUnless (endsFlowKey .flowMappingEnd) .flow fuel
    let value ← valueUnless (endsFlowValue .flowMappingEnd) .flow fuel
    return (key, value) :: (← flowEntries began false fuel)
  | _ =>
    let key ← node .flow fuel
    let value ← emptyNode (← peek).mark
    return (key, value) :: (← flowEntries began false fuel)

theorem flowEntries_eq (began : Mark) (first : Bool) (fuel : Nat) :
    flowEntries began first (fuel + 1) = (do
      let t ← peek
      if t.lexeme != .flowMappingEnd && !first then
        if t.lexeme == .flowEntry then advance
        else throw (.within .flowMapping began (.expectedMappingEnd t.lexeme.name) t.mark)
      flowEntriesFrom began fuel) := by
  conv => lhs; unfold flowEntries
  rfl

/-! ## Nodes -/

/-- All readers of nodes within a bound on their depth keep the fault. -/
structure NodesKeepFault (fuel : Nat) : Prop where
  node : ∀ position, KeepsFault (node position fuel)
  content : ∀ position props, KeepsFault (content position props fuel)
  nodeUnless : ∀ stop position, KeepsFault (nodeUnless stop position fuel)
  valueUnless : ∀ stop position, KeepsFault (valueUnless stop position fuel)
  blockItems : ∀ began, KeepsFault (blockItems began fuel)
  unindentedItems : KeepsFault (unindentedItems fuel)
  blockEntries : ∀ began, KeepsFault (blockEntries began fuel)
  flowItems : ∀ began first, KeepsFault (flowItems began first fuel)
  flowEntries : ∀ began first, KeepsFault (flowEntries began first fuel)

theorem nodesKeepFault_zero : NodesKeepFault 0 where
  node _ := emptyNode_peek_keepsFault
  content _ _ := emptyNode_peek_keepsFault
  nodeUnless _ _ := emptyNode_peek_keepsFault
  valueUnless _ _ := emptyNode_peek_keepsFault
  blockItems _ := .pure
  unindentedItems := .pure
  blockEntries _ := .pure
  flowItems _ _ := .pure
  flowEntries _ _ := .pure

section
variable {fuel : Nat} (ih : NodesKeepFault fuel)
include ih

theorem NodesKeepFault.node_succ (position : Position) :
    KeepsFault (Read.node position (fuel + 1)) := by
  unfold Read.node
  refine .bind peek_keepsFault fun t => ?_
  split
  · exact .bind advance_keepsFault fun _ => findAnchor_keepsFault ..
  · exact .bind properties_keepsFault fun props => ih.content position props

theorem NodesKeepFault.content_succ (position : Position) (props : Properties) :
    KeepsFault (Read.content position props (fuel + 1)) := by
  unfold Read.content
  refine .bind peek_keepsFault fun t => ?_
  dsimp only
  split
  · exact .bind (addAnchored_keepsFault ..) fun id => .bind ih.unindentedItems fun _ =>
      fill_keepsFault ..
  · exact .bind advance_keepsFault fun _ => addAnchored_keepsFault ..
  · exact .bind (addAnchored_keepsFault ..) fun id => .bind advance_keepsFault fun _ =>
      .bind (ih.flowItems ..) fun _ => fill_keepsFault ..
  · exact .bind (addAnchored_keepsFault ..) fun id => .bind advance_keepsFault fun _ =>
      .bind (ih.flowEntries ..) fun _ => fill_keepsFault ..
  · exact .bind (addAnchored_keepsFault ..) fun id => .bind advance_keepsFault fun _ =>
      .bind (ih.blockItems ..) fun _ => fill_keepsFault ..
  · exact .bind (addAnchored_keepsFault ..) fun id => .bind advance_keepsFault fun _ =>
      .bind (ih.blockItems ..) fun _ => fill_keepsFault ..
  · exact .bind (addAnchored_keepsFault ..) fun id => .bind advance_keepsFault fun _ =>
      .bind (ih.blockEntries ..) fun _ => fill_keepsFault ..
  · exact .bind (addAnchored_keepsFault ..) fun id => .bind advance_keepsFault fun _ =>
      .bind (ih.blockEntries ..) fun _ => fill_keepsFault ..
  · exact .ite (addAnchored_keepsFault ..) .marked

theorem NodesKeepFault.nodeUnless_succ (stop : Lexeme → Bool) (position : Position) :
    KeepsFault (Read.nodeUnless stop position (fuel + 1)) :=
  .bind peek_keepsFault fun _ => .ite (emptyNode_keepsFault _) (ih.node position)

theorem NodesKeepFault.valueUnless_succ (stop : Lexeme → Bool) (position : Position) :
    KeepsFault (Read.valueUnless stop position (fuel + 1)) :=
  .bind peek_keepsFault fun _ =>
    .ite (.bind advance_keepsFault fun _ => ih.nodeUnless stop position) (emptyNode_keepsFault _)

theorem NodesKeepFault.blockItems_succ (began : Mark) :
    KeepsFault (Read.blockItems began (fuel + 1)) := by
  refine .bind take_keepsFault fun t => ?_
  split
  · exact .bind (ih.nodeUnless ..) fun _ => .bind (ih.blockItems began) fun _ => .pure
  · exact .pure
  · exact .marked

theorem NodesKeepFault.unindentedItems_succ : KeepsFault (Read.unindentedItems (fuel + 1)) :=
  .bind peek_keepsFault fun _ => .ite (.bind advance_keepsFault fun _ =>
    .bind (ih.nodeUnless ..) fun _ => .bind ih.unindentedItems fun _ => .pure) .pure

/-- A key with its value, and the entries behind them. -/
theorem NodesKeepFault.entry {stop stop' : Lexeme → Bool} {position position' : Position}
    {more : Read (List (Nat × Nat))} (hmore : KeepsFault more) :
    KeepsFault (do
      let key ← Read.nodeUnless stop position fuel
      let value ← Read.valueUnless stop' position' fuel
      return (key, value) :: (← more)) :=
  .bind (ih.nodeUnless ..) fun _ => .bind (ih.valueUnless ..) fun _ => .bind hmore fun _ => .pure

theorem NodesKeepFault.blockEntries_succ (began : Mark) :
    KeepsFault (Read.blockEntries began (fuel + 1)) := by
  refine .bind take_keepsFault fun t => ?_
  split
  · exact ih.entry (ih.blockEntries began)
  · exact .pure
  · exact .marked

theorem NodesKeepFault.flowItems_succ (began : Mark) (first : Bool) :
    KeepsFault (Read.flowItems began first (fuel + 1)) := by
  have hitems : KeepsFault (flowItemsFrom began fuel) := by
    refine .bind peek_keepsFault fun t => ?_
    split
    · exact .bind advance_keepsFault fun _ => .pure
    · refine .bind (addNode_keepsFault _) fun _ => .bind advance_keepsFault fun _ => ?_
      refine .bind (ih.nodeUnless ..) fun _ => .bind (ih.valueUnless ..) fun _ => ?_
      exact .bind (fill_keepsFault ..) fun _ => .bind (ih.flowItems ..) fun _ => .pure
    · exact .bind (ih.node _) fun _ => .bind (ih.flowItems ..) fun _ => .pure
  rw [flowItems_eq]
  refine .bind peek_keepsFault fun t => .ite ?_ hitems
  exact .ite (.bind advance_keepsFault fun _ => hitems) (.bind .marked fun _ => hitems)

theorem NodesKeepFault.flowEntries_succ (began : Mark) (first : Bool) :
    KeepsFault (Read.flowEntries began first (fuel + 1)) := by
  have hentries : KeepsFault (flowEntriesFrom began fuel) := by
    refine .bind peek_keepsFault fun t => ?_
    split
    · exact .bind advance_keepsFault fun _ => .pure
    · exact .bind advance_keepsFault fun _ => ih.entry (ih.flowEntries ..)
    · refine .bind (ih.node _) fun _ => .bind peek_keepsFault fun _ => ?_
      exact .bind (emptyNode_keepsFault _) fun _ => .bind (ih.flowEntries ..) fun _ => .pure
  rw [flowEntries_eq]
  refine .bind peek_keepsFault fun t => .ite ?_ hentries
  exact .ite (.bind advance_keepsFault fun _ => hentries) (.bind .marked fun _ => hentries)

end

theorem nodesKeepFault (fuel : Nat) : NodesKeepFault fuel := by
  induction fuel with
  | zero => exact nodesKeepFault_zero
  | succ fuel ih =>
    exact {
      node := ih.node_succ
      content := ih.content_succ
      nodeUnless := ih.nodeUnless_succ
      valueUnless := ih.valueUnless_succ
      blockItems := ih.blockItems_succ
      unindentedItems := ih.unindentedItems_succ
      blockEntries := ih.blockEntries_succ
      flowItems := ih.flowItems_succ
      flowEntries := ih.flowEntries_succ }

end Read

end Columnar.Yaml
