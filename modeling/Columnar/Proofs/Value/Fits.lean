import Columnar.Proofs.ColumnType.OfTree
import Columnar.Proofs.Value.Readable

/-!
# Documents that fit a type

A node fits a type if reading it loses nothing: structs have all keys of their maps and every part
fits in turn. Which texts are taken to fit is a parameter. A node that fits a type fits every type
with room for it, and every document fits its own type; so a document fits what it is unified into.
-/

namespace Columnar

open ColumnType (Within Place)
open Record (last?)

/-- The node, if there is one, has a place in the type with all its parts. -/
inductive Fits (reads : ColumnType → String → Prop) : ColumnType → Option Tree → Prop
  | absent {t} : Fits reads t none
  | null {t} : Fits reads t (some .null)
  | scalar {t text} : reads t text → Fits reads t (some (.scalar text))
  | string {node} : Fits reads .string (some node)
  | any {node} : Fits reads .any (some node)
  | list {t items} : (∀ item ∈ items, Fits reads t (some item)) →
      Fits reads (.list t) (some (.sequence items))
  | struct {fs entries} : (∀ name ∈ Record.names entries, (last? name fs).isSome) →
      (∀ name t, last? name fs = some t → Fits reads t (Record.get? name entries)) →
      Fits reads (.struct fs) (some (.map entries))

namespace Fits

variable {reads : ColumnType → String → Prop} {t u : ColumnType} {node : Option Tree}

/-- A node that fits a type fits every type with room for it. -/
theorem within (h : Fits reads t node)
    (hreads : ∀ {p t u text}, Within p t u → reads t text → reads u text) {p : Place}
    (hw : Within p t u) : Fits reads u node := by
  -- By the derivation of fitting, not that of the order: a list keeps its items whatever place its
  -- elements are compared in, and the order is opened one level at a time.
  induction h generalizing p u with
  | absent => exact .absent
  | null => exact .null
  | scalar h => exact .scalar (hreads hw h)
  | string =>
    obtain rfl := hw.eq_string
    exact .string
  | any =>
    cases hw with
    | string => exact .string
    | alike h =>
      obtain rfl := (ColumnType.agrees_plain rfl).mp h
      exact .any
  | list _ ih =>
    rcases hw.list_cases with rfl | ⟨q, v, rfl, hv⟩
    · exact .string
    · exact .list fun item hitem => ih item hitem hv
  | @struct fs entries hkeys hfields ih =>
    rcases hw.struct_cases with rfl | ⟨gs, rfl⟩
    · exact .string
    have hroom := Within.struct_iff.mp hw
    refine .struct (fun name hname => ?_) (fun name v hv => ?_)
    · obtain ⟨s, hs⟩ := Option.isSome_iff_exists.mp (hkeys name hname)
      obtain ⟨v, hv, -⟩ := hroom name s hs
      exact Option.isSome_of_eq_some hv
    · cases hs : last? name fs with
      | some s =>
        obtain ⟨v', hv', hsv⟩ := hroom name s hs
        obtain rfl := Option.some.inj (hv.symm.trans hv')
        exact ih name s hs hsv
      | none =>
        have habsent : Record.get? name entries = none := by
          refine Record.get?_eq_none_iff.mpr fun hname => ?_
          have := hkeys name hname
          rw [hs] at this
          cases this
        rw [habsent]
        exact .absent

/-- Every document fits its own type. -/
theorem ofTree (reads : ColumnType → String → Prop)
    (hreads : ∀ {p t u text}, Within p t u → reads t text → reads u text)
    (hself : ∀ text, reads (Scalar.classify text) text) {n : Tree} (hn : n.WellFormed) :
    Fits reads (.ofTree n) (some n) := by
  induction n using Tree.nestedInduction with
  | null => exact .null
  | scalar text => exact .scalar (hself text)
  | sequence items ih =>
    rw [ColumnType.ofTree]
    have hroom := ColumnType.within_ofItems.mp
      (ColumnType.Within.refl .column (ColumnType.ofItems .null items))
    exact .list fun item hitem => (ih item hitem (hn.item hitem)).within hreads (hroom item hitem)
  | map entries ih =>
    have hlast (name : String) :
        last? name (Record.ofEntries (ColumnType.ofEntries entries)) =
          (Record.get? name entries).map ColumnType.ofTree := by
      rw [Record.last?_ofEntries, ColumnType.ofEntries_eq, Record.last?_map,
        Record.last?_eq_get? hn.keys]
    rw [ColumnType.ofTree, ColumnType.structOf]
    refine .struct (fun name hname => ?_) (fun name t ht => ?_)
    · rw [hlast, Option.isSome_map]
      exact Record.isSome_get?.mpr hname
    · rw [hlast] at ht
      obtain ⟨child, hchild, rfl⟩ := Option.map_eq_some_iff.mp ht
      have hmem := Record.mem_of_get? hchild
      rw [hchild]
      exact ih name child hmem (hn.child hmem)

/-- A node still fits a type when the type is settled. -/
theorem settle (h : Fits reads t node)
    (hsettle : ∀ {t text}, reads t text → reads t.settle text) : Fits reads t.settle node := by
  induction h with
  | absent => exact .absent
  | null => exact .null
  | scalar h => exact .scalar (hsettle h)
  | string => exact .string
  | any => exact .any
  | list _ ih => exact .list ih
  | @struct fs entries hkeys _ ih =>
    rw [ColumnType.settle, ColumnType.structOf]
    refine .struct (fun name hname => ?_) (fun name t ht => ?_)
    · rw [ColumnType.last?_settleFields, Option.isSome_map]
      exact hkeys name hname
    · rw [ColumnType.last?_settleFields] at ht
      obtain ⟨s, hs, rfl⟩ := Option.map_eq_some_iff.mp ht
      exact ih name s hs

end Fits

end Columnar
