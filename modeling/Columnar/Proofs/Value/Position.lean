import Columnar.Path
import Columnar.Proofs.Value.Fits

/-!
# Positions in values

A value is walked like a document: structs by key, lists by index. What is reached in the value that
a node was read as is what the node at the same place was read as, by the type found there; if the
node fits its type, the node reached fits the type reached.
-/

namespace Columnar

open Record (last? get?)

/-- The part of a value that one step leads to. -/
def Value.child? (v : Value) : Component → Option Value
  | .key name =>
    match v with
    | .struct _ entries => Record.get? name entries
    | _ => none
  | .index i =>
    match v with
    | .list _ items => if i < 0 then none else items[i.toNat]?
    | _ => none

/-- The part of a value that a sequence of steps leads to. -/
def Value.reach? (v : Value) (steps : List Component) : Option Value := steps.foldlM child? v

/-- The node that a sequence of steps leads to. -/
def Tree.reach? (root : Tree) (steps : List Component) : Option Tree :=
  steps.foldlM Path.Component.child? root

theorem Tree.reach?_cons (root : Tree) (c : Component) (rest : List Component) :
    root.reach? (c :: rest) = (Path.Component.child? root c).bind fun n => n.reach? rest :=
  List.foldlM_cons

namespace Value

theorem reach?_cons (v : Value) (c : Component) (rest : List Component) :
    v.reach? (c :: rest) = (v.child? c).bind fun w => w.reach? rest :=
  List.foldlM_cons

theorem child?_eq_none {v : Value} (h : v.isNull = true ∨ v.type.isNested = false)
    (c : Component) : v.child? c = none := by
  cases v <;> cases c <;> first | rfl | rcases h with h | h <;> cases h

theorem get?_ofFields (name : String) (fs : List (String × ColumnType))
    (entries : List (String × Tree)) :
    get? name (ofFields fs entries) =
      (get? name fs).map fun t => ofTree t (get? name entries) := by
  rw [ofFields_eq]
  exact Record.get?_map (fun n t => ofTree t (get? n entries)) name fs

end Value

variable {reads : ColumnType → String → Prop} {t : ColumnType} {node : Option Tree} {u : Value}

/-- One step down in a value that a node was read as is one step down in the node. -/
theorem Fits.child (ht : t.Distinct) (h : Fits reads t node) {c : Component}
    (hu : (Value.ofTree t node).child? c = some u) :
    ∃ s, u = Value.ofTree s (node.bind fun n => Path.Component.child? n c) ∧ s.Distinct ∧
      Fits reads s (node.bind fun n => Path.Component.child? n c) := by
  -- Nulls and values of types without parts have no child.
  have leaf (hleaf : (Value.ofTree t node).isNull = true ∨ t.isNested = false) : False := by
    have hnone : (Value.ofTree t node).child? c = none :=
      Value.child?_eq_none (hleaf.imp_right (by rw [Value.type_ofTree]; exact id)) c
    rw [hnone] at hu
    cases hu
  cases h with
  | absent => exact (leaf (Or.inl (by cases t <;> rfl))).elim
  | null => exact (leaf (by cases t <;> first | exact Or.inl rfl | exact Or.inr rfl)).elim
  | @scalar _ text =>
    refine (leaf ?_).elim
    cases hnested : t.isNested with
    | false => exact Or.inr rfl
    | true =>
      rw [Value.isNull_ofTree_scalar, Value.not_readable_of_isNested hnested]
      exact Or.inl rfl
  | string | any => exact (leaf (Or.inr rfl)).elim
  | @list t items hitems =>
    cases c with
    | key name => cases hu
    | index i =>
      change (if i < 0 then none else (items.map _)[i.toNat]?) = some u at hu
      split at hu
      · cases hu
      · rename_i hi
        rw [List.getElem?_map] at hu
        obtain ⟨item, hitem, rfl⟩ := Option.map_eq_some_iff.mp hu
        have hnode : Path.Component.child? (.sequence items) (.index i) = some item :=
          (if_neg hi).trans hitem
        rw [Option.bind_some, hnode]
        exact ⟨t, rfl, ht.element, hitems item (List.mem_of_getElem? hitem)⟩
  | @struct fs entries _ hfields =>
    cases c with
    | index i => cases hu
    | key name =>
      change get? name (Value.ofFields fs entries) = some u at hu
      rw [Value.get?_ofFields] at hu
      obtain ⟨s, hs, rfl⟩ := Option.map_eq_some_iff.mp hu
      refine ⟨s, rfl, ht.field (Record.mem_of_get? hs), hfields name s ?_⟩
      rw [Record.last?_eq_get? ht.fields, hs]

/-- What is reached in the value of a fitting node is the value of what is reached in the node. -/
theorem Fits.reach (ht : t.Distinct) (h : Fits reads t node) {steps : List Component}
    (hu : (Value.ofTree t node).reach? steps = some u) :
    ∃ s, u = Value.ofTree s (node.bind fun n => n.reach? steps) ∧
      Fits reads s (node.bind fun n => n.reach? steps) := by
  induction steps generalizing t node with
  | nil =>
    obtain rfl := Option.some.inj hu
    have hself : (node.bind fun n => n.reach? []) = node := Option.bind_fun_some node
    rw [hself]
    exact ⟨t, rfl, h⟩
  | cons c rest ih =>
    rw [Value.reach?_cons] at hu
    obtain ⟨w, hw, hu⟩ := Option.bind_eq_some_iff.mp hu
    obtain ⟨s, rfl, hs, hchild⟩ := h.child ht hw
    have hsteps : (node.bind fun n => n.reach? (c :: rest)) =
        (node.bind fun n => Path.Component.child? n c).bind fun n => n.reach? rest := by
      rw [Option.bind_assoc]
      rfl
    rw [hsteps]
    exact ih hs hchild hu

/-- A fitting node becomes a null only if it is none or a text taken to fit. -/
theorem Fits.of_isNull (h : Fits reads t node) (hnull : (Value.ofTree t node).isNull = true) :
    node = none ∨ node = some .null ∨ ∃ text, node = some (.scalar text) ∧ reads t text := by
  cases h with
  | absent => exact Or.inl rfl
  | null => exact Or.inr (Or.inl rfl)
  | scalar h => exact Or.inr (Or.inr ⟨_, rfl, h⟩)
  | @string node =>
    cases node with
    | null => exact Or.inr (Or.inl rfl)
    | scalar | sequence | map => cases hnull
  | any | list | struct => cases hnull

end Columnar
