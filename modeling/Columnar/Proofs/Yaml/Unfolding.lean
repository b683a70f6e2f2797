import Columnar.Proofs.Record.Order
import Columnar.Proofs.Yaml.Stream
import Mathlib.Data.List.Perm.Subperm

/-!
# Unfolding a graph

A graph is unfolded by walking down from its root, along items and values. A collection met again on
the way down to it stands on a cycle; a collection met again elsewhere is only shared, and is
unfolded once more. The walk keeps the collections on the way, all different, so it never goes
deeper than there are nodes. Main statement: it fails exactly if a cycle can be reached, and what it
returns otherwise is the unfolding of the graph, which is said here without the walk.
-/

namespace Columnar.Yaml

/-- The nodes that a node holds as items or values. -/
def Node.children : Node → List Nat
  | .scalar _ _ _ => []
  | .sequence items _ => items
  | .mapping entries _ => entries.map Prod.snd

/-- The nodes that a node holds as keys. -/
def Node.keys : Node → List Nat
  | .mapping entries _ => entries.map Prod.fst
  | _ => []

namespace Graph

variable {g : Graph} {id child last root : Nat}

/-- One step down, to an item or a value. -/
def Child (g : Graph) (id child : Nat) : Prop := ∃ n, g.node? id = some n ∧ child ∈ n.children

/-- From the node one can go down and come back to it. -/
def OnCycle (g : Graph) (id : Nat) : Prop := ∃ child, g.Child id child ∧ g.Below child id

/-- A cycle can be reached from the node. -/
def Cyclic (g : Graph) (root : Nat) : Prop := ∃ id, g.Below root id ∧ g.OnCycle id

/-- From the root down every node is there, and the keys of mappings are scalars. -/
def HasScalarKeys (g : Graph) (root : Nat) : Prop :=
  ∀ id, g.Below root id → ∃ n, g.node? id = some n ∧
    ∀ key ∈ n.keys, ∃ text isNull mark, g.node? key = some (.scalar text isNull mark)

/-- The tree is what the graph shows from a node down: every use of a node is unfolded, scalars keep
their text unless they are null, and of the entries of a mapping that name the same key the last
counts, in the place of the first. -/
inductive Unfolds (g : Graph) : Nat → Tree → Prop
  | null {id : Nat} {text : String} {mark : Mark} :
      g.node? id = some (.scalar text true mark) → Unfolds g id .null
  | scalar {id : Nat} {text : String} {mark : Mark} :
      g.node? id = some (.scalar text false mark) → Unfolds g id (.scalar text)
  | sequence {id : Nat} {items : List Nat} {mark : Mark} {trees : List Tree} :
      g.node? id = some (.sequence items mark) → trees.length = items.length →
      (∀ (n item : Nat) (t : Tree), items[n]? = some item → trees[n]? = some t →
        Unfolds g item t) →
      Unfolds g id (.sequence trees)
  | mapping {id : Nat} {entries : List (Nat × Nat)} {mark : Mark}
      {named : List (String × Tree)} {record : Record Tree} :
      g.node? id = some (.mapping entries mark) → named.length = entries.length →
      (∀ (n : Nat) (entry : Nat × Nat) (e : String × Tree), entries[n]? = some entry →
        named[n]? = some e → ∃ isNull mark, g.node? entry.1 = some (.scalar e.1 isNull mark)) →
      (∀ (n : Nat) (entry : Nat × Nat) (e : String × Tree), entries[n]? = some entry →
        named[n]? = some e → Unfolds g entry.2 e.2) →
      Record.Collapses named record → Unfolds g id (.map record)

/-! ## Steps down -/

theorem Below.of_child (h : g.Child id child) (hbelow : g.Below child last) : g.Below id last := by
  obtain ⟨n, hn, hchild⟩ := h
  cases n with
  | scalar text isNull mark => cases hchild
  | sequence items mark => exact .item hn hchild hbelow
  | mapping entries mark =>
    obtain ⟨entry, hentry, rfl⟩ := List.mem_map.mp hchild
    exact .value hn hentry hbelow

theorem below_iff : g.Below id last ↔ id = last ∨ ∃ child, g.Child id child ∧ g.Below child last := by
  constructor
  · intro h
    cases h with
    | self => exact Or.inl rfl
    | item hid hitem hbelow => exact Or.inr ⟨_, ⟨_, hid, hitem⟩, hbelow⟩
    | value hid hentry hbelow =>
      exact Or.inr ⟨_, ⟨_, hid, List.mem_map_of_mem hentry⟩, hbelow⟩
  · intro h
    rcases h with rfl | ⟨child, hchild, hbelow⟩
    · exact .self
    · exact hbelow.of_child hchild

theorem Below.step (h : g.Below id last) (hchild : g.Child last child) : g.Below id child := by
  induction h with
  | self => exact .of_child hchild .self
  | item hid hitem _ ih => exact .item hid hitem (ih hchild)
  | value hid hentry _ ih => exact .value hid hentry (ih hchild)

theorem HasScalarKeys.of_child (h : g.HasScalarKeys id) (hchild : g.Child id child) :
    g.HasScalarKeys child :=
  fun last hlast => h last (hlast.of_child hchild)

/-! ## What is unfolded has no cycle -/

/-- Going down from an unfolded node ends. -/
theorem Unfolds.acc {t : Tree} (h : g.Unfolds id t) : Acc (fun child id => g.Child id child) id := by
  induction h with
  | null hid | scalar hid =>
    refine ⟨_, fun child hchild => ?_⟩
    obtain ⟨n, hn, hmem⟩ := hchild
    obtain rfl := Option.some.inj (hn.symm.trans hid)
    cases hmem
  | @sequence id items mark trees hid hlength _ ih =>
    refine ⟨_, fun child hchild => ?_⟩
    obtain ⟨n, hn, hmem⟩ := hchild
    obtain rfl := Option.some.inj (hn.symm.trans hid)
    obtain ⟨i, hi⟩ := List.mem_iff_getElem?.mp hmem
    have hlt : i < trees.length := hlength ▸ (List.getElem?_eq_some_iff.mp hi).1
    exact ih i child trees[i] hi (List.getElem?_eq_getElem hlt)
  | @mapping id entries mark named record hid hlength _ _ _ ih =>
    refine ⟨_, fun child hchild => ?_⟩
    obtain ⟨n, hn, hmem⟩ := hchild
    obtain rfl := Option.some.inj (hn.symm.trans hid)
    obtain ⟨entry, hentry, rfl⟩ := List.mem_map.mp hmem
    obtain ⟨i, hi⟩ := List.mem_iff_getElem?.mp hentry
    have hlt : i < named.length := hlength ▸ (List.getElem?_eq_some_iff.mp hi).1
    exact ih i entry named[i] hi (List.getElem?_eq_getElem hlt)

theorem not_onCycle_of_acc (h : Acc (fun child id => g.Child id child) id) : ¬g.OnCycle id := by
  induction h with
  | intro id _ ih =>
    intro hcycle
    obtain ⟨child, hchild, hback⟩ := hcycle
    -- The child stands on the same cycle, one step further.
    apply ih child hchild
    rcases below_iff.mp hback with rfl | ⟨next, hnext, hid⟩
    · exact ⟨child, hchild, .self⟩
    · exact ⟨next, hnext, hid.step hchild⟩

theorem acc_of_below (h : g.Below id last) (hacc : Acc (fun child id => g.Child id child) id) :
    Acc (fun child id => g.Child id child) last := by
  induction h with
  | self => exact hacc
  | item hid hitem _ ih => exact ih (hacc.inv ⟨_, hid, hitem⟩)
  | value hid hentry _ ih => exact ih (hacc.inv ⟨_, hid, List.mem_map_of_mem hentry⟩)

theorem Unfolds.not_cyclic {t : Tree} (h : g.Unfolds root t) : ¬g.Cyclic root := by
  intro hcyclic
  obtain ⟨id, hbelow, hcycle⟩ := hcyclic
  exact not_onCycle_of_acc (acc_of_below hbelow h.acc) hcycle

/-- A node has one unfolding at most. -/
theorem Unfolds.unique {s t : Tree} (hs : g.Unfolds id s) (ht : g.Unfolds id t) : s = t := by
  induction hs generalizing t with
  | null hid | scalar hid =>
    cases ht with
    | null hid' | scalar hid' =>
      cases hid.symm.trans hid'
      try rfl
    | sequence hid' | mapping hid' => cases hid.symm.trans hid'
  | @sequence id items mark trees hid hlength _ ih =>
    cases ht with
    | null hid' | scalar hid' | mapping hid' => cases hid.symm.trans hid'
    | @sequence _ _ _ others hid' hlength' hothers =>
      cases hid.symm.trans hid'
      congr 1
      apply List.ext_getElem (hlength.trans hlength'.symm)
      intro n hn hn'
      have hitem : n < items.length := hlength ▸ hn
      exact ih n items[n] trees[n] (List.getElem?_eq_getElem hitem) (List.getElem?_eq_getElem hn)
        (hothers n items[n] others[n] (List.getElem?_eq_getElem hitem)
          (List.getElem?_eq_getElem hn'))
  | @mapping id entries mark named record hid hlength hkeys _ hcollapses ih =>
    cases ht with
    | null hid' | scalar hid' | sequence hid' => cases hid.symm.trans hid'
    | @mapping _ _ _ others record' hid' hlength' hkeys' hothers hcollapses' =>
      cases hid.symm.trans hid'
      obtain rfl : named = others := by
        apply List.ext_getElem (hlength.trans hlength'.symm)
        intro n hn hn'
        have hentry : entries[n]? = some entries[n] := List.getElem?_eq_getElem (hlength ▸ hn)
        have he : named[n]? = some named[n] := List.getElem?_eq_getElem hn
        have he' : others[n]? = some others[n] := List.getElem?_eq_getElem hn'
        obtain ⟨isNull, began, hkey⟩ := hkeys n _ _ hentry he
        obtain ⟨isNull', began', hkey'⟩ := hkeys' n _ _ hentry he'
        have hsame := Option.some.inj (hkey.symm.trans hkey')
        exact Prod.ext (Node.scalar.inj hsame).1 (ih n _ _ hentry he (hothers n _ _ hentry he'))
      rw [hcollapses.unique hcollapses']

/-! ## The walk -/

/-- Where a walk stands: the collections on the way down are nodes of the graph, all different, and
as many more may follow as there are others. -/
structure Walk (g : Graph) (fuel : Nat) (active : List Nat) : Prop where
  nodup : active.Nodup
  inside : ∀ id ∈ active, id < g.nodes.size
  enough : g.nodes.size ≤ fuel + active.length

theorem walk_start (g : Graph) {fuel : Nat} (h : g.nodes.size ≤ fuel) : g.Walk fuel [] :=
  ⟨List.nodup_nil, fun _ hid => absurd hid List.not_mem_nil, h⟩

/-- There is always room for a node that is not on the way yet. -/
theorem Walk.enter {fuel : Nat} {active : List Nat} {n : Node} (h : g.Walk fuel active)
    (hn : g.node? id = some n) (hnew : id ∉ active) :
    ∃ rest, fuel = rest + 1 ∧ g.Walk rest (id :: active) := by
  have hid : id < g.nodes.size := (Array.getElem?_eq_some_iff.mp hn).1
  have hnodup : (id :: active).Nodup := List.nodup_cons.mpr ⟨hnew, h.nodup⟩
  have hinside : ∀ a ∈ id :: active, a < g.nodes.size := List.forall_mem_cons.mpr ⟨hid, h.inside⟩
  have hlength : (id :: active).length ≤ g.nodes.size := by
    have hsubset : id :: active ⊆ List.range g.nodes.size :=
      fun a ha => List.mem_range.mpr (hinside a ha)
    have hle := (List.subperm_of_subset hnodup hsubset).length_le
    rwa [List.length_range] at hle
  rw [List.length_cons] at hlength
  have henough := h.enough
  obtain ⟨rest, rfl⟩ : ∃ rest, fuel = rest + 1 := ⟨fuel - 1, by omega⟩
  refine ⟨rest, rfl, hnodup, hinside, ?_⟩
  rw [List.length_cons]
  omega

/-- The name and the tree of an entry of a mapping. -/
def entryFrom (g : Graph) (fuel : Nat) (active : List Nat) (entry : Nat × Nat) :
    Except Fault (String × Tree) := do
  let key ← g.keyText entry.1
  let t ← g.unfoldFrom fuel active entry.2
  return (key, t)

section Equations

variable {text : String} {isNull : Bool} {mark : Mark} {items : List Nat}
  {entries : List (Nat × Nat)} {active : List Nat}

theorem unfoldFrom_none (h : g.node? id = none) (fuel : Nat) (active : List Nat) :
    g.unfoldFrom fuel active id = .ok .null := by
  unfold unfoldFrom
  simp only [h]

theorem unfoldFrom_scalar (h : g.node? id = some (.scalar text isNull mark)) (fuel : Nat)
    (active : List Nat) :
    g.unfoldFrom fuel active id = .ok (if isNull then .null else .scalar text) := by
  unfold unfoldFrom
  simp only [h]

theorem unfoldFrom_of_mem {n : Node} (hn : g.node? id = some n) (hcollection : g.IsCollection id)
    (hactive : id ∈ active) (fuel : Nat) :
    g.unfoldFrom fuel active id = .error (.recursive n.mark) := by
  unfold unfoldFrom
  rcases hcollection with ⟨items, mark, h⟩ | ⟨entries, mark, h⟩ <;>
  · obtain rfl := Option.some.inj (hn.symm.trans h)
    simp only [h]
    exact if_pos hactive

theorem unfoldFrom_sequence (h : g.node? id = some (.sequence items mark)) (hnew : id ∉ active)
    (fuel : Nat) :
    g.unfoldFrom (fuel + 1) active id =
      (items.mapM (g.unfoldFrom fuel (id :: active))).map .sequence := by
  rw [unfoldFrom]
  simp only [h, if_neg hnew]
  cases items.mapM (g.unfoldFrom fuel (id :: active)) <;> rfl

theorem unfoldFrom_mapping (h : g.node? id = some (.mapping entries mark)) (hnew : id ∉ active)
    (fuel : Nat) :
    g.unfoldFrom (fuel + 1) active id =
      (entries.mapM (g.entryFrom fuel (id :: active))).map Tree.mapOf := by
  rw [unfoldFrom]
  simp only [h, if_neg hnew]
  show entries.mapM (g.entryFrom fuel (id :: active)) >>= _ = _
  cases entries.mapM (g.entryFrom fuel (id :: active)) <;> rfl

theorem entryFrom_scalar {entry : Nat × Nat}
    (h : g.node? entry.1 = some (.scalar text isNull mark)) (fuel : Nat) (active : List Nat) :
    g.entryFrom fuel active entry =
      (g.unfoldFrom fuel active entry.2).map fun t => (text, t) := by
  have hkey : g.keyText entry.1 = .ok text := by
    unfold keyText
    simp only [h]
  unfold entryFrom
  rw [hkey]
  show g.unfoldFrom fuel active entry.2 >>= _ = _
  cases g.unfoldFrom fuel active entry.2 <;> rfl

end Equations

/-- The bound on the depth of the walk never matters. -/
theorem unfoldFrom_more {fuel : Nat} {active : List Nat} (h : g.Walk fuel active) (id : Nat)
    (extra : Nat) : g.unfoldFrom (fuel + extra) active id = g.unfoldFrom fuel active id := by
  induction fuel using Nat.strongRecOn generalizing active id with
  | ind fuel ih =>
    cases hn : g.node? id with
    | none => rw [unfoldFrom_none hn, unfoldFrom_none hn]
    | some n =>
      cases n with
      | scalar text isNull mark => rw [unfoldFrom_scalar hn, unfoldFrom_scalar hn]
      | sequence items mark =>
        by_cases hactive : id ∈ active
        · have hcollection : g.IsCollection id := Or.inl ⟨items, mark, hn⟩
          rw [unfoldFrom_of_mem hn hcollection hactive, unfoldFrom_of_mem hn hcollection hactive]
        · obtain ⟨rest, rfl, hwalk⟩ := h.enter hn hactive
          rw [Nat.add_right_comm, unfoldFrom_sequence hn hactive, unfoldFrom_sequence hn hactive,
            mapM_congr fun item _ => ih rest (Nat.lt_succ_self rest) hwalk item]
      | mapping entries mark =>
        by_cases hactive : id ∈ active
        · have hcollection : g.IsCollection id := Or.inr ⟨entries, mark, hn⟩
          rw [unfoldFrom_of_mem hn hcollection hactive, unfoldFrom_of_mem hn hcollection hactive]
        · obtain ⟨rest, rfl, hwalk⟩ := h.enter hn hactive
          rw [Nat.add_right_comm, unfoldFrom_mapping hn hactive, unfoldFrom_mapping hn hactive]
          congr 1
          apply mapM_congr
          intro entry _
          unfold entryFrom
          rw [ih rest (Nat.lt_succ_self rest) hwalk entry.2]

/-! ## How a walk ends -/

/-- What a walk from a node ends with: the unfolding of the node, or the start of a collection on a
cycle below it. -/
inductive Ends (g : Graph) (id : Nat) : Except Fault Tree → Prop
  | unfolded {t : Tree} : g.Unfolds id t → Ends g id (.ok t)
  | cycle {last : Nat} {n : Node} : g.Below id last → g.OnCycle last → g.node? last = some n →
      Ends g id (.error (.recursive n.mark))

section Ends

variable {mark : Mark} {fuel : Nat} {active : List Nat} {fault : Fault}

theorem Ends.error (h : g.Ends id (.error fault)) :
    ∃ last n, g.Below id last ∧ g.OnCycle last ∧ g.node? last = some n ∧
      fault = .recursive n.mark := by
  cases h with
  | cycle hbelow hcycle hn => exact ⟨_, _, hbelow, hcycle, hn, rfl⟩

/-- A cycle below a child is below the node. -/
theorem Ends.of_child {next : Nat} (hchild : g.Child id next) (h : g.Ends next (.error fault)) :
    g.Ends id (.error fault) := by
  cases h with
  | cycle hbelow hcycle hn => exact .cycle (hbelow.of_child hchild) hcycle hn

theorem ends_sequence {items : List Nat} (hn : g.node? id = some (.sequence items mark))
    (h : ∀ item ∈ items, g.Ends item (g.unfoldFrom fuel active item)) :
    g.Ends id ((items.mapM (g.unfoldFrom fuel active)).map .sequence) := by
  cases htrees : items.mapM (g.unfoldFrom fuel active) with
  | error fault =>
    obtain ⟨item, hitem, hfault⟩ := exists_of_mapM_error htrees
    have hends := h item hitem
    rw [hfault] at hends
    exact hends.of_child ⟨_, hn, hitem⟩
  | ok trees =>
    obtain ⟨hlength, hplaces⟩ := getElem?_of_mapM htrees
    refine .unfolded (.sequence hn hlength ?_)
    intro i item t hitem ht
    have hends := h item (List.mem_of_getElem? hitem)
    rw [hplaces i item t hitem ht] at hends
    cases hends with
    | unfolded hunfolds => exact hunfolds

theorem ends_mapping {entries : List (Nat × Nat)} (hn : g.node? id = some (.mapping entries mark))
    (hkeys : ∀ entry ∈ entries,
      ∃ text isNull began, g.node? entry.1 = some (.scalar text isNull began))
    (h : ∀ entry ∈ entries, g.Ends entry.2 (g.unfoldFrom fuel active entry.2)) :
    g.Ends id ((entries.mapM (g.entryFrom fuel active)).map Tree.mapOf) := by
  cases hnamed : entries.mapM (g.entryFrom fuel active) with
  | error fault =>
    obtain ⟨entry, hentry, hfault⟩ := exists_of_mapM_error hnamed
    obtain ⟨text, isNull, began, hkey⟩ := hkeys entry hentry
    have hends := h entry hentry
    rw [entryFrom_scalar hkey] at hfault
    cases hvalue : g.unfoldFrom fuel active entry.2 with
    | ok t =>
      rw [hvalue] at hfault
      cases hfault
    | error fault' =>
      rw [hvalue] at hfault hends
      obtain rfl := Except.error.inj hfault
      exact hends.of_child ⟨_, hn, List.mem_map_of_mem hentry⟩
  | ok named =>
    obtain ⟨hlength, hplaces⟩ := getElem?_of_mapM hnamed
    -- Each entry has the name that its key is the text of, and the tree of its value.
    have hentry {i : Nat} {entry : Nat × Nat} {e : String × Tree}
        (hi : entries[i]? = some entry) (he : named[i]? = some e) :
        (∃ isNull began, g.node? entry.1 = some (.scalar e.1 isNull began)) ∧
          g.Unfolds entry.2 e.2 := by
      have hmem := List.mem_of_getElem? hi
      obtain ⟨text, isNull, began, hkey⟩ := hkeys entry hmem
      have hends := h entry hmem
      have hok := hplaces i entry e hi he
      rw [entryFrom_scalar hkey] at hok
      cases hvalue : g.unfoldFrom fuel active entry.2 with
      | error fault =>
        rw [hvalue] at hok
        cases hok
      | ok t =>
        rw [hvalue] at hok hends
        obtain rfl := Except.ok.inj hok
        cases hends with
        | unfolded hunfolds => exact ⟨⟨isNull, began, hkey⟩, hunfolds⟩
    exact .unfolded (.mapping hn hlength (fun _ _ _ hi he => (hentry hi he).1)
      (fun _ _ _ hi he => (hentry hi he).2) (Record.collapses_ofEntries named))

/-- Every walk ends so, if each collection on its way leads down to the node where it stands. -/
theorem unfoldFrom_ends (h : g.Walk fuel active)
    (hway : ∀ a ∈ active, ∃ next, g.Child a next ∧ g.Below next id) (hkeys : g.HasScalarKeys id) :
    g.Ends id (g.unfoldFrom fuel active id) := by
  induction fuel using Nat.strongRecOn generalizing active id with
  | ind fuel ih =>
    obtain ⟨n, hn, hscalars⟩ := hkeys id .self
    have hagain (hcollection : g.IsCollection id) (hactive : id ∈ active) :
        g.Ends id (g.unfoldFrom fuel active id) := by
      rw [unfoldFrom_of_mem hn hcollection hactive]
      exact .cycle .self (hway id hactive) hn
    have hbelow {rest : Nat} (hwalk : g.Walk rest (id :: active)) (hrest : rest < fuel)
        {next : Nat} (hnext : g.Child id next) :
        g.Ends next (g.unfoldFrom rest (id :: active) next) := by
      refine ih rest hrest hwalk ?_ (hkeys.of_child hnext)
      intro a ha
      rcases List.mem_cons.mp ha with rfl | ha
      · exact ⟨next, hnext, .self⟩
      · obtain ⟨first, hfirst, hid⟩ := hway a ha
        exact ⟨first, hfirst, hid.step hnext⟩
    cases n with
    | scalar text isNull mark =>
      rw [unfoldFrom_scalar hn]
      cases isNull with
      | true => exact .unfolded (.null hn)
      | false => exact .unfolded (.scalar hn)
    | sequence items mark =>
      by_cases hactive : id ∈ active
      · exact hagain (Or.inl ⟨items, mark, hn⟩) hactive
      · obtain ⟨rest, rfl, hwalk⟩ := h.enter hn hactive
        rw [unfoldFrom_sequence hn hactive]
        apply ends_sequence hn
        intro item hitem
        exact hbelow hwalk (Nat.lt_succ_self rest) ⟨_, hn, hitem⟩
    | mapping entries mark =>
      by_cases hactive : id ∈ active
      · exact hagain (Or.inr ⟨entries, mark, hn⟩) hactive
      · obtain ⟨rest, rfl, hwalk⟩ := h.enter hn hactive
        rw [unfoldFrom_mapping hn hactive]
        apply ends_mapping hn
        · intro entry hentry
          exact hscalars entry.1 (List.mem_map_of_mem hentry)
        · intro entry hentry
          exact hbelow hwalk (Nat.lt_succ_self rest) ⟨_, hn, List.mem_map_of_mem hentry⟩

end Ends

/-! ## Main result -/

def isScalar (g : Graph) (id : Nat) : Bool :=
  match g.node? id with
  | some (.scalar _ _ _) => true
  | _ => false

/-- It is enough that all nodes of the graph refer to nodes, and by keys to scalars. -/
theorem hasScalarKeys_of_forall (hroot : root < g.nodes.size)
    (h : ∀ n ∈ g.nodes.toList, (∀ next ∈ n.children, next < g.nodes.size) ∧
      ∀ key ∈ n.keys, g.isScalar key = true) : g.HasScalarKeys root := by
  have hnode {id : Nat} (hid : id < g.nodes.size) :
      ∃ n, g.node? id = some n ∧ n ∈ g.nodes.toList := by
    refine ⟨g.nodes[id], Array.getElem?_eq_getElem hid, ?_⟩
    exact Array.mem_toList_iff.mpr (Array.getElem_mem hid)
  have hbelow {id last : Nat} (hlast : g.Below id last) : id < g.nodes.size →
      last < g.nodes.size := by
    induction hlast with
    | self => exact fun hid => hid
    | item hid hitem _ ih =>
      intro hlt
      obtain ⟨n, hn, hmem⟩ := hnode hlt
      obtain rfl := Option.some.inj (hn.symm.trans hid)
      exact ih ((h _ hmem).1 _ hitem)
    | value hid hentry _ ih =>
      intro hlt
      obtain ⟨n, hn, hmem⟩ := hnode hlt
      obtain rfl := Option.some.inj (hn.symm.trans hid)
      exact ih ((h _ hmem).1 _ (List.mem_map_of_mem hentry))
  intro id hid
  obtain ⟨n, hn, hmem⟩ := hnode (hbelow hid hroot)
  refine ⟨n, hn, fun key hkey => ?_⟩
  have hscalar := (h n hmem).2 key hkey
  unfold isScalar at hscalar
  split at hscalar
  · exact ⟨_, _, _, ‹_›⟩
  · cases hscalar

/-- **Unfolding is exact and ends.** In a graph whose keys are scalars, the walk never needs more
room than there are nodes. It fails if and only if a cycle can be reached, at whatever value, also
one that a later entry hides; the fault then names the start of a collection on such a cycle. In all
other cases it returns the one tree that the graph unfolds to, however deep that is: the walk has all
the stack that it needs. -/
theorem unfolding_is_exact (h : g.HasScalarKeys root) :
    (∀ fuel, g.nodes.size ≤ fuel → g.unfoldFrom fuel [] root = g.unfold root) ∧
    ((∃ mark, g.unfold root = .error (.recursive mark)) ↔ g.Cyclic root) ∧
    (∀ fault, g.unfold root = .error fault →
      ∃ id n, g.Below root id ∧ g.OnCycle id ∧ g.node? id = some n ∧ fault = .recursive n.mark) ∧
    (¬g.Cyclic root → ∃ t, g.unfold root = .ok t ∧ ∀ s, g.Unfolds root s ↔ s = t) := by
  have hwalk : g.Walk g.nodes.size [] := walk_start g (Nat.le_refl _)
  have hway : ∀ a ∈ ([] : List Nat), ∃ next, g.Child a next ∧ g.Below next root :=
    fun a ha => absurd ha List.not_mem_nil
  refine ⟨?_, ?_⟩
  · intro fuel hfuel
    obtain ⟨extra, rfl⟩ := Nat.exists_eq_add_of_le hfuel
    exact unfoldFrom_more hwalk root extra
  · have hends : g.Ends root (g.unfold root) := unfoldFrom_ends hwalk hway h
    cases hresult : g.unfold root with
    | ok t =>
      rw [hresult] at hends
      cases hends with
      | unfolded hunfolds =>
        refine ⟨⟨fun hfails => ?_, fun hcyclic => ?_⟩, fun fault hfails => ?_, fun _ => ?_⟩
        · obtain ⟨mark, hfails⟩ := hfails
          cases hfails
        · exact absurd hcyclic hunfolds.not_cyclic
        · cases hfails
        · refine ⟨t, rfl, fun s => ⟨fun hs => hs.unique hunfolds, fun hs => ?_⟩⟩
          rw [hs]
          exact hunfolds
    | error fault =>
      rw [hresult] at hends
      obtain ⟨id, n, hid, hcycle, hn, rfl⟩ := hends.error
      have hcyclic : g.Cyclic root := ⟨id, hid, hcycle⟩
      refine ⟨⟨fun _ => hcyclic, fun _ => ⟨n.mark, rfl⟩⟩, fun fault hfails => ?_, fun hnone => ?_⟩
      · obtain rfl := Except.error.inj hfails
        exact ⟨id, n, hid, hcycle, hn, rfl⟩
      · exact absurd hcyclic hnone

/-- The mapping `a: &x [&n ~, *n], b: *x, a: y`: the shared sequence is unfolded under `b`, and
hidden under `a`. The mapping `&m a: [*m], a: y`: the cycle is hidden as well, and fails. -/
theorem hidden_cycle_fails_and_shared_sequence_unfolds :
    let mark : Mark := ⟨0, 0, 0⟩
    let shared : Graph := ⟨#[.mapping [(1, 3), (2, 3), (1, 5)] mark, .scalar "a" false mark,
      .scalar "b" false mark, .sequence [4, 4] mark, .scalar "~" true mark, .scalar "y" false mark]⟩
    let cyclic : Graph := ⟨#[.mapping [(1, 2), (1, 3)] mark, .scalar "a" false mark,
      .sequence [0] mark, .scalar "y" false mark]⟩
    shared.HasScalarKeys 0 ∧ ¬shared.Cyclic 0 ∧
      shared.Unfolds 0 (.map [("a", .scalar "y"), ("b", .sequence [.null, .null])]) ∧
      cyclic.HasScalarKeys 0 ∧ cyclic.Cyclic 0 ∧
      ∃ began, cyclic.unfold 0 = .error (.recursive began) := by
  intro mark shared cyclic
  have hshared : shared.HasScalarKeys 0 := hasScalarKeys_of_forall (by decide) (by decide)
  have hcyclic : cyclic.HasScalarKeys 0 := hasScalarKeys_of_forall (by decide) (by decide)
  have htree : shared.unfold 0 =
      .ok (.map [("a", .scalar "y"), ("b", .sequence [.null, .null])]) := by rfl
  obtain ⟨-, hfails, -, hunfolds⟩ := unfolding_is_exact hshared
  have hnone : ¬shared.Cyclic 0 := by
    intro hcycle
    obtain ⟨began, herror⟩ := hfails.mpr hcycle
    cases htree.symm.trans herror
  have hcycle : cyclic.Cyclic 0 :=
    ⟨0, .self, 2, ⟨_, rfl, by decide⟩, .item rfl List.mem_cons_self .self⟩
  obtain ⟨t, ht, hexact⟩ := hunfolds hnone
  obtain rfl := Except.ok.inj (htree.symm.trans ht)
  exact ⟨hshared, hnone, (hexact _).mpr rfl, hcyclic, hcycle,
    (unfolding_is_exact hcyclic).2.1.mpr hcycle⟩

end Graph

end Columnar.Yaml
