import Columnar.Proofs.Value.Readable

/-!
# Readings are well-typed

What a node is read as belongs to the type that was asked for, through and through: integers are in
the range of their width, a list has one value of its element type for each item of the sequence and
a struct one value for each declared field, both in order. Nulls stand only where the node has no
value of the type. So each declared field of a struct can be asked for, also of a null one. Main
statement: `readings_are_well_typed`.
-/

namespace Columnar.Value

open ColumnType (structOf)

/-- Does the node have a value of the type? Sequences have one of a list, maps one of a struct and
scalars one of the types they are readable at; every node is text, and nulls have a value only as
kept text. -/
def hasValue : ColumnType → Tree → Bool
  | .any, _ => true
  | _, .null => false
  | .string, _ => true
  | .list _, .sequence _ => true
  | .struct _, .map _ => true
  | t, .scalar text => readable t text
  | _, _ => false

mutual

/-- The value is one that a node, if there is one, may have in a type. -/
inductive WellTyped : ColumnType → Option Tree → Value → Prop
  | null {t node} : node.any (hasValue t) = false → WellTyped t node (.null t)
  | boolean {node} (b : Bool) : WellTyped .boolean node (.boolean b)
  | integer {node w n} : w.Holds n → WellTyped (.integer w) node (.integer w n)
  | double {node} (d : Double) : WellTyped .double node (.double d)
  | date {node} (d : Date) : WellTyped .date node (.date d)
  | time {node} (t : TimeOfDay) : WellTyped .time node (.time t)
  | timestamp {node} (t : Timestamp) : WellTyped .timestamp node (.timestamp t)
  | string {node} (s : String) : WellTyped .string node (.string s)
  | any {node} (json : String) : WellTyped .any node (.any json)
  | list {t items values} : ItemsTyped t items values →
      WellTyped (.list t) (some (.sequence items)) (.list t values)
  | struct {fs entries values} : FieldsTyped entries fs values →
      WellTyped (.struct fs) (some (.map entries)) (.struct fs values)

/-- One value of the type for each item, in order. -/
inductive ItemsTyped : ColumnType → List Tree → List Value → Prop
  | nil {t} : ItemsTyped t [] []
  | cons {t item items value values} : WellTyped t (some item) value → ItemsTyped t items values →
      ItemsTyped t (item :: items) (value :: values)

/-- One value of its type for each field, in order, under the name of the field. -/
inductive FieldsTyped : List (String × Tree) → List (String × ColumnType) →
    List (String × Value) → Prop
  | nil {entries} : FieldsTyped entries [] []
  | cons {entries name t fs value values} : WellTyped t (Record.get? name entries) value →
      FieldsTyped entries fs values →
      FieldsTyped entries ((name, t) :: fs) ((name, value) :: values)

end

/-! ## Inversion -/

theorem WellTyped.type_eq {t : ColumnType} {node : Option Tree} {v : Value}
    (h : WellTyped t node v) : v.type = t := by
  cases h <;> rfl

theorem WellTyped.eq_null {node : Option Tree} {v : Value} (h : WellTyped .null node v) :
    v = .null .null := by
  cases h
  rfl

/-- A declared field is found among the values, with a value of its type. -/
theorem FieldsTyped.get? {entries : List (String × Tree)} {fs : List (String × ColumnType)}
    {values : List (String × Value)} (h : FieldsTyped entries fs values) {name : String}
    {t : ColumnType} (ht : Record.get? name fs = some t) :
    ∃ v, Record.get? name values = some v ∧ WellTyped t (Record.get? name entries) v := by
  induction fs generalizing values with
  | nil => cases ht
  | cons f rest ih =>
    cases h with
    | @cons _ n s _ value values hvalue hrest =>
      by_cases hname : n = name
      · subst hname
        rw [Record.get?, if_pos rfl] at ht
        obtain rfl := Option.some.inj ht
        exact ⟨value, by rw [Record.get?, if_pos rfl], hvalue⟩
      · rw [Record.get?, if_neg hname] at ht
        obtain ⟨v, hv, hwell⟩ := ih hrest ht
        exact ⟨v, by rw [Record.get?, if_neg hname, hv], hwell⟩

/-! ## Readings -/

theorem itemsTyped_map {t : ColumnType} {items : List Tree}
    (h : ∀ item ∈ items, WellTyped t (some item) (ofTree t (some item))) :
    ItemsTyped t items (items.map fun item => ofTree t (some item)) := by
  induction items with
  | nil => exact .nil
  | cons item rest ih =>
    rw [List.forall_mem_cons] at h
    exact .cons h.1 (ih h.2)

theorem fieldsTyped_ofFields {fs : List (String × ColumnType)} {entries : List (String × Tree)}
    (h : ∀ name t, (name, t) ∈ fs → ∀ node, WellTyped t node (ofTree t node)) :
    FieldsTyped entries fs (ofFields fs entries) := by
  induction fs with
  | nil => exact .nil
  | cons f rest ih =>
    obtain ⟨name, t⟩ := f
    have hhead := h name t List.mem_cons_self (Record.get? name entries)
    have hrest := ih fun n s hs => h n s (List.mem_cons_of_mem _ hs)
    rw [ofFields]
    exact .cons hhead hrest

section Scalars

variable {α : Type} {t : ColumnType} {node : Option Tree} {make : α → Value} {read : Option α}

theorem wellTyped_ofRead (hsome : ∀ a, read = some a → WellTyped t node (make a))
    (hnone : read = none → node.any (hasValue t) = false) :
    WellTyped t node (ofRead t make read) := by
  cases read with
  | none => exact .null (hnone rfl)
  | some a => exact hsome a rfl

end Scalars

/-- A scalar is read as a value of the type, or as a null where the type cannot read it. -/
theorem wellTyped_ofTree_scalar (t : ColumnType) (text : String) :
    WellTyped t (some (.scalar text)) (ofTree t (some (.scalar text))) := by
  cases t with
  | null | list | struct => exact .null rfl
  | string => exact .string text
  | any => exact .any _
  | integer w =>
    simp only [ofTree, ofScalar]
    apply wellTyped_ofRead
    · intro n hn
      exact .integer (integerWithin?_eq_some_iff.mp hn).2
    · intro hnone
      simp [hasValue, readable, hnone]
  | boolean | double | date | time | timestamp =>
    simp only [ofTree, ofScalar]
    apply wellTyped_ofRead
    · intro a _
      constructor
    · intro hnone
      simp [hasValue, readable, hnone]

theorem wellTyped_ofTree (t : ColumnType) (node : Option Tree) :
    WellTyped t node (ofTree t node) := by
  -- On the nesting of the type: a list hands its element type to the items and a struct the types of
  -- its fields to the children, whatever they are.
  induction t using ColumnType.nestedInduction generalizing node with
  | plain t ht =>
    cases node with
    | none => cases t <;> exact .null rfl
    | some n =>
      cases n with
      | scalar text => exact wellTyped_ofTree_scalar t text
      | null =>
        cases t with
        | any => exact .any _
        | _ => exact .null rfl
      | sequence | map =>
        cases t with
        | any => exact .any _
        | string => exact .string _
        | list | struct => cases ht
        | _ => exact .null rfl
  | list t ih =>
    cases node with
    | none => exact .null rfl
    | some n =>
      cases n with
      | sequence items => exact .list (itemsTyped_map fun item _ => ih (some item))
      | null | scalar | map => exact .null rfl
  | struct fs ih =>
    cases node with
    | none => exact .null rfl
    | some n =>
      cases n with
      | map entries => exact .struct (fieldsTyped_ofFields ih)
      | null | scalar | sequence => exact .null rfl

/-- What has no value of a struct has no children to read its fields from. -/
theorem bind_get?_of_not_hasValue {fs : List (String × ColumnType)} {node : Option Tree}
    (h : node.any (hasValue (.struct fs)) = false) (name : String) :
    node.bind (Tree.get? name) = none := by
  cases node with
  | none => rfl
  | some n =>
    cases n with
    | map => cases h
    | null | scalar | sequence => rfl

/-- Each declared field can be asked for, whatever the struct was read from. -/
theorem field_ofTree_struct {fs : List (String × ColumnType)} (node : Option Tree) {name : String}
    {t : ColumnType} (ht : Record.get? name fs = some t) :
    ∃ v, field name (ofTree (.struct fs) node) = .ok v ∧
      WellTyped t (node.bind (Tree.get? name)) v := by
  have hwell := wellTyped_ofTree (.struct fs) node
  generalize ofTree (.struct fs) node = row at hwell ⊢
  cases hwell with
  | null hnone =>
    refine ⟨.null t, ?_, ?_⟩
    · simp only [field, type, ht]
    · rw [bind_get?_of_not_hasValue hnone]
      exact .null rfl
  | struct hfields =>
    obtain ⟨v, hv, hvalue⟩ := hfields.get? ht
    refine ⟨v, ?_, hvalue⟩
    simp only [field, type, ht, hv, Option.elim_some]

/-- **Readings are well-typed.** Every node, and a node that is absent, is read as a value of the
type that was asked for: down to every depth integers are in the range of their width, lists have one
value of their element type for each item, structs have one value for each declared field, and there
are nulls only where the node has no value of the type. At the null type there is nothing but a null.
Of a struct that collapses repeated names every declared field can be asked for, of a null one too,
and gives a value that the child of that name has in the type of the field. -/
theorem readings_are_well_typed :
    (∀ t node, WellTyped t node (ofTree t node) ∧ (ofTree t node).type = t) ∧
    (∀ node, ofTree .null node = .null .null) ∧
    (∀ fields node, ∀ name ∈ Record.names fields, ∃ t v,
      (structOf fields).field? name = some t ∧
      field name (ofTree (structOf fields) node) = .ok v ∧
      WellTyped t (node.bind (Tree.get? name)) v) := by
  refine ⟨?_, ?_, ?_⟩
  · intro t node
    exact ⟨wellTyped_ofTree t node, (wellTyped_ofTree t node).type_eq⟩
  · intro node
    exact (wellTyped_ofTree .null node).eq_null
  · intro fields node name hname
    have hlast : Record.get? name (Record.ofEntries fields) = Record.last? name fields :=
      Record.get?_ofEntries name fields
    cases ht : Record.last? name fields with
    | none => exact absurd hname (Record.last?_eq_none_iff.mp ht)
    | some t =>
      obtain ⟨v, hv, hwell⟩ := field_ofTree_struct node (hlast.trans ht)
      exact ⟨t, v, hlast.trans ht, hv, hwell⟩

/-- A row that is not there has null fields of the declared types, also under a name that was
declared twice. -/
theorem fields_of_absent_row_are_well_typed :
    let fields := [("id", .integer .w8), ("at", .list .date), ("id", .double)]
    "id" ∈ Record.names fields ∧ (ofTree (structOf fields) none).isNull = true ∧
      ∃ t v, (structOf fields).field? "id" = some t ∧
        field "id" (ofTree (structOf fields) none) = .ok v ∧
        WellTyped t ((none : Option Tree).bind (Tree.get? "id")) v := by
  intro fields
  have hname : "id" ∈ Record.names fields := List.mem_cons_self
  exact ⟨hname, rfl, readings_are_well_typed.2.2 fields none "id" hname⟩

end Columnar.Value
