import Columnar.Proofs.ColumnType.Coarsened

/-!
# The order of merged fields

Unified structs have their fields in the order in which the names are first seen, and so do the
structs in their fields, at every depth that is reached through structs alone. There the rules for
fields and those for columns are the same. Main statement: `merged_fields_keep_first_seen_order`.
-/

namespace Columnar.ColumnType

open Record (get?)

/-- The type that the names lead to, each a field of the struct before it. -/
def reach? : List String → ColumnType → Option ColumnType
  | [], t => some t
  | name :: path, t => (t.field? name).bind (reach? path)

theorem filterMap_reach?_nil (ts : List ColumnType) : ts.filterMap (reach? []) = ts :=
  List.filterMap_some

/-- What one more name in front leads to is looked up in the fields of that name. -/
theorem filterMap_reach?_cons (name : String) (path : List String) (ts : List ColumnType) :
    ts.filterMap (reach? (name :: path)) = (ts.filterMap (field? name)).filterMap (reach? path) :=
  List.filterMap_filterMap.symm

theorem Distinct.of_field? {t u : ColumnType} {name : String} (ht : t.Distinct)
    (h : t.field? name = some u) : u.Distinct := by
  cases t with
  | struct fs => exact ht.field (Record.mem_of_get? h)
  | _ => cases h

/-! ## Structs in fields and in columns -/

theorem struct_fields {t : ColumnType} (ht : t.kind = .struct) : struct t.fields = t := by
  obtain ⟨fs, rfl⟩ := eq_struct_of_kind ht
  rfl

theorem unify_kind_of_structs {t u : ColumnType} (ht : t.kind = .struct) (hu : u.kind = .struct) :
    (unify t u).kind = .struct := by
  obtain ⟨fs, rfl⟩ := eq_struct_of_kind ht
  obtain ⟨gs, rfl⟩ := eq_struct_of_kind hu
  unfold unify
  split <;> rfl

theorem combineField_structs {t u : ColumnType} (ht : t.kind = .struct) (hu : u.kind = .struct) :
    combineField t u = unify t u := by
  obtain ⟨fs, rfl⟩ := eq_struct_of_kind ht
  obtain ⟨gs, rfl⟩ := eq_struct_of_kind hu
  unfold combineField unify
  rfl

theorem combineAll_structs {ts : List ColumnType} (hts : ∀ t ∈ ts, t.kind = .struct) :
    combineAll ts = unifyAll ts := by
  cases ts with
  | nil => rfl
  | cons t rest =>
    rw [List.forall_mem_cons] at hts
    have hfold : (rest.foldl unify t).kind = .struct ∧
        rest.foldl combineField t = rest.foldl unify t := by
      refine List.foldl_rel
        (r := fun c f : ColumnType => c.kind = .struct ∧ f = c) ⟨hts.1, rfl⟩ ?_
      rintro u hu c f ⟨hc, rfl⟩
      have hstruct := hts.2 u hu
      exact ⟨unify_kind_of_structs hc hstruct, combineField_structs hc hstruct⟩
    exact congrArg some hfold.2

/-! ## Names in order -/

/-- Structs are unified to a struct with all names in first-seen order, and a field of it combines
the fields of its name. -/
theorem fields_of_unified {ts : List ColumnType} (hsome : ts ≠ [])
    (hdistinct : ∀ t ∈ ts, t.Distinct) (hts : ∀ t ∈ ts, t.kind = .struct) :
    ∃ merged, unifyAll ts = some merged ∧ merged.kind = .struct ∧
      merged.fieldNames = (ts.flatMap fieldNames).eraseDups ∧
      ∀ name, merged.field? name = combineAll (ts.filterMap (field? name)) := by
  have hself : (ts.map fields).map .struct = ts := by
    rw [List.map_map]
    exact (List.map_congr_left fun t ht => struct_fields (hts t ht)).trans (List.map_id ts)
  have hfields : ∀ fs ∈ ts.map fields, Record.Distinct fs := by
    rw [List.forall_mem_map]
    intro t ht
    have hstruct := hdistinct t ht
    rw [← struct_fields (hts t ht)] at hstruct
    exact hstruct.fields
  have hfieldsSome : ts.map fields ≠ [] := by
    rw [Ne, List.map_eq_nil_iff]
    exact hsome
  obtain ⟨hs, hunified, -, hnames, hget⟩ := unifyAll_structs hfieldsSome hfields
  refine ⟨.struct hs, ?_, rfl, ?_, fun name => ?_⟩
  · rw [← hself, hunified]
  · show Record.names hs = (ts.flatMap fieldNames).eraseDups
    rw [hnames, List.flatMap_map]
    rfl
  · show get? name hs = combineAll (ts.filterMap (field? name))
    rw [hget, List.filterMap_map]
    rfl

/-- **Merging keeps fields in first-seen order.** If a path leads through structs alone in all types
of a list, and to a struct in at least one, then it leads to a struct in what the types are unified
to, from the first on. The names of that struct are those of all structs the path leads to, in the
order of their first occurrences. In particular the names of unified structs are so ordered. -/
theorem merged_fields_keep_first_seen_order (ts : List ColumnType) (path : List String)
    (hdistinct : ∀ t ∈ ts, t.Distinct)
    (hstructs : ∀ above, above <+: path → ∀ t ∈ ts.filterMap (reach? above), t.kind = .struct)
    (hsome : ts.filterMap (reach? path) ≠ []) :
    ∃ merged inner, unifyAll ts = some merged ∧ merged.reach? path = some inner ∧
      inner.kind = .struct ∧
      inner.fieldNames = ((ts.filterMap (reach? path)).flatMap fieldNames).eraseDups := by
  induction path generalizing ts with
  | nil =>
    have hts := hstructs [] List.nil_prefix
    rw [filterMap_reach?_nil] at hts hsome ⊢
    obtain ⟨merged, hmerged, hkind, hnames, -⟩ := fields_of_unified hsome hdistinct hts
    exact ⟨merged, merged, hmerged, rfl, hkind, hnames⟩
  | cons name path ih =>
    have hts := hstructs [] List.nil_prefix
    have hfields := hstructs [name] (List.prefix_cons_inj name |>.mpr List.nil_prefix)
    rw [filterMap_reach?_nil] at hts
    rw [filterMap_reach?_cons, filterMap_reach?_nil] at hfields
    rw [filterMap_reach?_cons] at hsome ⊢
    have hne : ts ≠ [] := by
      rintro rfl
      exact hsome rfl
    have hfieldsDistinct : ∀ u ∈ ts.filterMap (field? name), u.Distinct := by
      intro u hu
      obtain ⟨t, ht, hfield⟩ := List.mem_filterMap.mp hu
      exact (hdistinct t ht).of_field? hfield
    have hbelow : ∀ above, above <+: path →
        ∀ t ∈ (ts.filterMap (field? name)).filterMap (reach? above), t.kind = .struct := by
      intro above hstart
      rw [← filterMap_reach?_cons]
      exact hstructs (name :: above) (List.prefix_cons_inj name |>.mpr hstart)
    obtain ⟨field, inner, hfield, hinner, hkind, hnames⟩ :=
      ih (ts.filterMap (field? name)) hfieldsDistinct hbelow hsome
    -- The fields of the name hold structs only, so they merge as columns do.
    obtain ⟨merged, hmerged, -, -, hname⟩ := fields_of_unified hne hdistinct hts
    refine ⟨merged, inner, hmerged, ?_, hkind, hnames⟩
    rw [reach?, hname, combineAll_structs hfields, hfield]
    exact hinner

/-- Three structs, the first two of which agree: they differ in the order of their fields only, here
and one level below, and the last one has a field before theirs. -/
theorem merged_structs_keep_order_of_first :
    let ts : List ColumnType :=
      [.struct [("x", .struct [("b", .date), ("a", .any)]), ("y", .null)],
        .struct [("y", .null), ("x", .struct [("a", .any), ("b", .date)])],
        .struct [("z", .date), ("x", .struct [("c", .time), ("a", .any)])]]
    ∃ merged inner, unifyAll ts = some merged ∧ merged.reach? ["x"] = some inner ∧
      inner.kind = .struct ∧ inner.fieldNames = ["b", "a", "c"] ∧
      merged.fieldNames = ["x", "y", "z"] := by
  intro ts
  have hdistinct : ∀ t ∈ ts, t.Distinct := by
    simp [ts, Distinct, AllDistinct, Record.Distinct, Record.names]
  have hstructs : ∀ above, above <+: ["x"] →
      ∀ t ∈ ts.filterMap (reach? above), t.kind = .struct := by
    intro above hstart
    rcases List.prefix_cons_iff.mp hstart with rfl | ⟨rest, rfl, hrest⟩
    · simp [ts, reach?, kind]
    · rw [List.prefix_nil.mp hrest]
      simp [ts, reach?, field?, fields, get?, kind]
  obtain ⟨merged, inner, hmerged, hinner, hkind, hnames⟩ :=
    merged_fields_keep_first_seen_order ts ["x"] hdistinct hstructs (List.cons_ne_nil _ _)
  obtain ⟨merged', top, hmerged', htop, -, htopNames⟩ :=
    merged_fields_keep_first_seen_order ts [] hdistinct
      (fun above hstart => hstructs above (hstart.trans List.nil_prefix)) (List.cons_ne_nil _ _)
  cases hmerged.symm.trans hmerged'
  cases htop
  exact ⟨merged, inner, hmerged, hinner, hkind, hnames.trans (by decide),
    htopNames.trans (by decide)⟩

end Columnar.ColumnType
