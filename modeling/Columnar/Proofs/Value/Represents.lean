import Columnar.Proofs.ColumnType.Algebra
import Columnar.Proofs.Tree.WellFormed
import Columnar.Proofs.Value.Readable

/-!
# What a type represents

A type represents a node if the node has a place in it with all its parts: no text in it becomes a
null on reading, and no key is without a field. Main statement: what one of two types represents,
their unified type represents too. It follows from the order of types, in which the unified type
has room for both.
-/

namespace Columnar.ColumnType

open Record (last? get?)

mutual

/-- Does the node have a place in the type with all its parts? A null has one in every type, and
strings and `any` take every node. -/
def represents : ColumnType → Tree → Bool
  | _, .null => true
  | .string, _ | .any, _ => true
  | .list t, .sequence items => representsItems t items
  | .struct fs, .map entries => representsEntries fs entries
  | t, .scalar text => !(Value.ofTree t (some (.scalar text))).isNull
  | _, _ => false

def representsItems (t : ColumnType) : List Tree → Bool
  | [] => true
  | n :: rest => represents t n && representsItems t rest

/-- Every key has a field, and the type of the field represents the value. -/
def representsEntries (fs : List (String × ColumnType)) : List (String × Tree) → Bool
  | [] => true
  | (key, n) :: rest =>
    (match get? key fs with
      | some t => represents t n
      | none => false) && representsEntries fs rest

end

theorem representsItems_iff {t : ColumnType} {items : List Tree} :
    representsItems t items = true ↔ ∀ n ∈ items, t.represents n = true := by
  induction items with
  | nil => simp [representsItems]
  | cons n rest ih => simp [representsItems, ih]

theorem representsEntries_iff {fs : List (String × ColumnType)} {entries : List (String × Tree)} :
    representsEntries fs entries = true ↔
      ∀ key n, (key, n) ∈ entries → ∃ t, get? key fs = some t ∧ t.represents n = true := by
  induction entries with
  | nil => simp [representsEntries]
  | cons e rest ih =>
    obtain ⟨k, m⟩ := e
    have hhead : (match get? k fs with
        | some t => t.represents m
        | none => false) = true ↔ ∃ t, get? k fs = some t ∧ t.represents m = true := by
      cases get? k fs <;> simp
    rw [representsEntries, Bool.and_eq_true, hhead, ih]
    constructor
    · rintro ⟨hm, hrest⟩ key n hn
      rcases List.mem_cons.mp hn with h | h
      · obtain ⟨rfl, rfl⟩ : key = k ∧ n = m := by simpa using h
        exact hm
      · exact hrest key n h
    · intro h
      refine ⟨h k m List.mem_cons_self, fun key n hn => ?_⟩
      exact h key n (List.mem_cons_of_mem _ hn)

theorem represents_scalar (t : ColumnType) (text : String) :
    t.represents (.scalar text) = Value.readable t text := by
  cases t <;> simp [represents, Value.isNull_ofTree_scalar] <;> rfl

/-- Strings and `any` keep every node as text. -/
def TakesAll (t : ColumnType) : Prop := t = .string ∨ t = .any

theorem TakesAll.represents {t : ColumnType} (h : t.TakesAll) (n : Tree) :
    t.represents n = true := by
  rcases h with rfl | rfl <;> cases n <;> rfl

theorem represents_sequence_iff {t : ColumnType} {items : List Tree} :
    t.represents (.sequence items) = true ↔
      t.TakesAll ∨ ∃ s, t = .list s ∧ ∀ n ∈ items, s.represents n = true := by
  cases t <;> simp [represents, TakesAll, representsItems_iff]

theorem represents_map_iff {t : ColumnType} {entries : List (String × Tree)} :
    t.represents (.map entries) = true ↔
      t.TakesAll ∨ ∃ fs, t = .struct fs ∧
        ∀ key n, (key, n) ∈ entries → ∃ s, get? key fs = some s ∧ s.represents n = true := by
  cases t <;> simp [represents, TakesAll, representsEntries_iff]

theorem Within.takesAll {p : Place} {t u : ColumnType} (hw : Within p t u) (ht : t.TakesAll) :
    u.TakesAll := by
  rcases ht with rfl | rfl
  · exact Or.inl hw.eq_string
  · cases hw with
    | string => exact Or.inl rfl
    | alike h => exact Or.inr ((agrees_plain rfl).mp h).symm

/-- What a type represents, every type with room for its values represents. -/
theorem Within.represents {p : Place} {t u : ColumnType} (hw : Within p t u) (ht : t.Distinct)
    (hu : u.Distinct) {n : Tree} (h : t.represents n = true) : u.represents n = true := by
  -- On the nesting of the node: the order is opened one level at a time, and in which place it
  -- compares the elements of two lists does not matter.
  induction n using Tree.nestedInduction generalizing p t u with
  | null => rw [ColumnType.represents]
  | scalar text =>
    rw [represents_scalar] at h ⊢
    exact Value.readable_within hw h
  | sequence items ih =>
    rcases represents_sequence_iff.mp h with hall | ⟨s, rfl, hitems⟩
    · exact (hw.takesAll hall).represents _
    rcases hw.list_cases with rfl | ⟨q, v, rfl, hv⟩
    · exact TakesAll.represents (Or.inl rfl) _
    refine represents_sequence_iff.mpr (Or.inr ⟨v, rfl, fun n hn => ?_⟩)
    exact ih n hn hv ht.element hu.element (hitems n hn)
  | map entries ih =>
    rcases represents_map_iff.mp h with hall | ⟨fs, rfl, hentries⟩
    · exact (hw.takesAll hall).represents _
    rcases hw.struct_cases with rfl | ⟨gs, rfl⟩
    · exact TakesAll.represents (Or.inl rfl) _
    refine represents_map_iff.mpr (Or.inr ⟨gs, rfl, fun key n hn => ?_⟩)
    obtain ⟨s, hs, hrep⟩ := hentries key n hn
    have hlast : last? key fs = some s := by rw [Record.last?_eq_get? ht.fields, hs]
    obtain ⟨v, hv, hsv⟩ := Within.struct_iff.mp hw key s hlast
    rw [Record.last?_eq_get? hu.fields] at hv
    have hsd : s.Distinct := ht.field (Record.mem_of_get? hs)
    have hvd : v.Distinct := hu.field (Record.mem_of_get? hv)
    exact ⟨v, hv, ih key n hn hsv hsd hvd hrep⟩

/-- What one of two types represents, their unified type represents, whichever comes first. -/
theorem unify_represents {t u : ColumnType} (ht : t.Distinct) (hu : u.Distinct)
    (node : Option Tree) (h : node.all t.represents = true) :
    node.all (unify t u).represents = true ∧ node.all (unify u t).represents = true := by
  cases node with
  | none => exact ⟨rfl, rfl⟩
  | some n =>
    rw [Option.all_some] at h ⊢
    have hleft : Within .column t (unify t u) := (unify_isJoin ht hu).left
    have hright : Within .column t (unify u t) := (unify_isJoin hu ht).right
    exact ⟨hleft.represents ht (unify_distinct ht hu) h,
      hright.represents ht (unify_distinct hu ht) h⟩

/-- Records with a number each, in two widths; the second type has a further field, and unified in
a field the numbers become strings. -/
theorem unify_represents_records :
    let node := Tree.sequence [.map [("n", .scalar "7"), ("on", .scalar "yes")], .null]
    let t := ColumnType.list (.struct [("on", .boolean), ("n", .integer .w8)])
    let u := ColumnType.list (.struct [("n", .integer .w16), ("at", .list .date)])
    t.Distinct ∧ u.Distinct ∧ (some node).all t.represents = true ∧
      (some node).all (unify t u).represents = true ∧
      (some node).all (unify u t).represents = true := by
  intro node t u
  have ht : t.Distinct := by simp [t, Distinct, AllDistinct, Record.Distinct, Record.names]
  have hu : u.Distinct := by simp [u, Distinct, AllDistinct, Record.Distinct, Record.names]
  have h : (some node).all t.represents = true := by decide
  exact ⟨ht, hu, h, unify_represents ht hu (some node) h⟩

end Columnar.ColumnType
