import Columnar.ColumnType.OfTree
import Columnar.Proofs.ColumnType.Algebra
import Columnar.Proofs.Scalar.Classify
import Columnar.Proofs.Tree.WellFormed

/-!
# The types of documents

The type of a scalar has no parts, so the types of documents name no field twice and the algebra of
unification applies to all of them. The elements of a sequence are typed by the least upper bound
of the types of its items. Settling, which puts strings in the place of `null`, respects agreement.
-/

namespace Columnar.ColumnType

open Record (last? get?)

/-! ## Types of documents name no field twice -/

theorem Distinct.of_plain {t : ColumnType} (h : t.isNested = false) : t.Distinct := by
  cases t <;> trivial

theorem Distinct.structOf {fs : List (String × ColumnType)}
    (h : ∀ name t, (name, t) ∈ fs → t.Distinct) : (structOf fs).Distinct := by
  have hnames := Record.distinct_ofEntries fs
  refine ⟨hnames, allDistinct_iff.mpr fun name t ht => ?_⟩
  exact h name t (Record.mem_of_mem_ofEntries ht)

theorem ofItems_eq (sofar : ColumnType) (items : List Tree) :
    ofItems sofar items = (items.map ofTree).foldl unify sofar := by
  induction items generalizing sofar with
  | nil => rfl
  | cons t rest ih =>
    rw [ofItems, ih]
    rfl

theorem ofEntries_eq (entries : List (String × Tree)) :
    ofEntries entries = entries.map fun e => (e.1, ofTree e.2) := by
  induction entries with
  | nil => rfl
  | cons e rest ih =>
    rw [ofEntries, ih]
    rfl

theorem ofTree_distinct (t : Tree) : (ofTree t).Distinct := by
  induction t using Tree.nestedInduction with
  | null => trivial
  | scalar text => exact .of_plain (Scalar.classify_plain text)
  | sequence items ih =>
    rw [ofTree, Distinct, ofItems_eq]
    refine foldl_unify_distinct trivial fun s hs => ?_
    obtain ⟨t, ht, rfl⟩ := List.mem_map.mp hs
    exact ih t ht
  | map entries ih =>
    rw [ofTree, ofEntries_eq]
    refine .structOf fun name s hs => ?_
    obtain ⟨e, he, heq⟩ := List.mem_map.mp hs
    cases heq
    exact ih e.1 e.2 he

/-- What has room for the elements of a sequence has room for each item. -/
theorem within_ofItems {items : List Tree} {c : ColumnType} :
    Within .column (ofItems .null items) c ↔ ∀ t ∈ items, Within .column (ofTree t) c := by
  have hitems : ∀ s ∈ items.map ofTree, s.Distinct := by
    intro s hs
    obtain ⟨t, -, rfl⟩ := List.mem_map.mp hs
    exact ofTree_distinct t
  have hnull : Distinct .null := .of_plain rfl
  rw [ofItems_eq, within_foldl_unify hnull hitems, List.forall_mem_map]
  exact and_iff_right .null

/-! ## Settling -/

theorem settleFields_eq (fs : List (String × ColumnType)) :
    settleFields fs = fs.map fun f => (f.1, settle f.2) := by
  induction fs with
  | nil => rfl
  | cons f rest ih =>
    rw [settleFields, ih]
    rfl

/-- A settled type names no field twice, whatever type it was. -/
theorem settle_distinct (t : ColumnType) : (settle t).Distinct := by
  induction t using nestedInduction with
  | plain t ht => cases t <;> trivial
  | list t ih => rwa [settle, Distinct]
  | struct fs ih =>
    rw [settle, settleFields_eq]
    refine .structOf fun name t ht => ?_
    obtain ⟨f, hf, heq⟩ := List.mem_map.mp ht
    cases heq
    exact ih f.1 f.2 hf

theorem last?_settleFields (name : String) (fs : List (String × ColumnType)) :
    last? name (Record.ofEntries (settleFields fs)) = (last? name fs).map settle := by
  rw [Record.last?_ofEntries, settleFields_eq, Record.last?_map]

/-- Types that agree agree when they are settled. -/
theorem settle_agrees {t u : ColumnType} (h : t.agrees u = true) :
    (settle t).agrees (settle u) = true := by
  induction t using nestedInduction generalizing u with
  | plain t ht =>
    obtain rfl := (agrees_plain ht).mp h
    exact agrees_refl _
  | list t ih =>
    obtain ⟨u, rfl, hu⟩ := agrees_list_left h
    rw [settle, settle, agrees]
    exact ih hu
  | struct fs ih =>
    obtain ⟨gs, rfl⟩ := agrees_struct_left h
    rw [settle, settle, structOf, structOf]
    refine agrees_struct.mpr fun name => ?_
    rw [last?_settleFields, last?_settleFields]
    have hrel := agrees_struct.mp h name
    have hsettle : ∀ t, last? name fs = some t → ∀ u, t.agrees u = true →
        (settle t).agrees (settle u) = true := fun t ht _ => ih name t (Record.mem_of_last? ht)
    generalize last? name fs = f at hrel hsettle ⊢
    generalize last? name gs = g at hrel ⊢
    cases hrel with
    | none => exact .none
    | some hagree => exact .some (hsettle _ rfl _ hagree)

end Columnar.ColumnType
