import Columnar.Proofs.ColumnType.OfTree
import Columnar.Proofs.Record.Order

/-!
# Columns and fields of the same values

A column unifies the types of its values, and a field of a struct combines them by the stricter
rules. Side by side over the same types, the two keep to each other until the field gives up its
structure: it is a string then, or a list of strings where the column is a list. That relation,
`Coarsened`, survives settling, which the order of types alone does not. Structs themselves are put
together in one way in both places: at each name by the rules for fields, and with their names in
the order in which they are first seen.
-/

namespace Columnar.ColumnType

open Record (last? get?)

/-- There is room for a type in another one exactly if unifying it in changes nothing. -/
theorem within_iff_unify_agrees {t u : ColumnType} (ht : t.Distinct) (hu : u.Distinct) :
    Within .column t u ↔ (unify t u).agrees u = true := by
  have hjoin := unify_isJoin ht hu
  constructor
  · intro h
    exact (hjoin.least h (.refl _ u)).antisymm hjoin.right
  · intro h
    exact hjoin.left.of_agrees_right h

/-! ## Unification by shape -/

theorem unify_of_agrees {t u : ColumnType} (h : t.agrees u = true) : unify t u = t := by
  unfold unify
  rw [if_pos h]

theorem unify_null_left (u : ColumnType) : unify .null u = u := by
  unfold unify
  split
  · exact (agrees_plain rfl).mp ‹_›
  · rfl

theorem unify_null_right (t : ColumnType) : unify t .null = t := by
  unfold unify
  split
  · rfl
  · cases t <;> rfl

theorem unify_list (t u : ColumnType) : unify (.list t) (.list u) = .list (unify t u) := by
  rw [unify, unify.eq_def t u, agrees]
  split <;> rfl

theorem unify_struct {fs gs : List (String × ColumnType)}
    (h : ¬ (ColumnType.struct fs).agrees (.struct gs) = true) :
    unify (.struct fs) (.struct gs) = combineStructs fs gs := by
  unfold unify
  rw [if_neg h]

theorem combineField_of_agrees {t u : ColumnType} (h : t.agrees u = true) :
    combineField t u = t := by
  unfold combineField
  rw [if_pos h]

theorem combineField_null_right (t : ColumnType) : combineField t .null = t := by
  unfold combineField
  split
  · rfl
  · cases t <;> rfl

theorem combineField_string (t : ColumnType) : combineField .string t = .string := by
  unfold combineField
  split
  · rfl
  · cases t <;> rfl

/-- A field that holds a list of strings stays one as long as there are lists only. -/
theorem combineField_strings (t : ColumnType) :
    combineField (.list .string) (.list t) = .list .string := by
  unfold combineField
  split
  · rfl
  · cases t <;> rfl

/-- Beside a value that is neither a list nor absent, a list is kept as text. -/
theorem combineField_list_of_kind_ne {t u : ColumnType} (hlist : u.kind ≠ .list)
    (hnull : u ≠ .null) : combineField (.list t) u = .string := by
  have hagree : ¬ (ColumnType.list t).agrees u = true := by
    intro h
    obtain ⟨s, rfl, -⟩ := agrees_list_left h
    exact hlist rfl
  unfold combineField
  rw [if_neg hagree]
  cases u with
  | null => exact absurd rfl hnull
  | list => exact absurd rfl hlist
  | _ => rfl

/-! ## A field against a column -/

/-- The second type agrees with the first, or it keeps the values as text: each as a whole, or each
item of a list. -/
inductive Coarsened : ColumnType → ColumnType → Prop
  | alike {t u} : t.agrees u = true → Coarsened t u
  | string {t} : Coarsened t .string
  | strings {t} : Coarsened (.list t) (.list .string)

namespace Coarsened

variable {t u v : ColumnType}

theorem refl (t : ColumnType) : Coarsened t t := .alike (agrees_refl t)

theorem within (h : Coarsened t u) : Within .column t u := by
  cases h with
  | alike h => exact .alike h
  | string => exact .string
  | strings => exact .elements .string

theorem settle (h : Coarsened t u) : Coarsened t.settle u.settle := by
  cases h with
  | alike h => exact .alike (settle_agrees h)
  | string => exact .string
  | strings => exact .strings

theorem of_agrees (h : t.agrees u = true) (h' : Coarsened u v) : Coarsened t v := by
  cases h' with
  | alike h' => exact .alike (agrees_trans h h')
  | string => exact .string
  | strings =>
    obtain ⟨s, rfl, -⟩ := agrees_list_left (agrees_symm h)
    exact .strings

end Coarsened

/-- Two types put together in a column and in a field. -/
theorem unify_coarsened (t u : ColumnType) : Coarsened (unify t u) (combineField t u) := by
  by_cases hagree : t.agrees u = true
  · rw [unify_of_agrees hagree, combineField_of_agrees hagree]
    exact .refl t
  have hstructs {fs gs : List (String × ColumnType)}
      (h : ¬ (ColumnType.struct fs).agrees (.struct gs) = true) :
      unify (.struct fs) (.struct gs) = .struct (combineFields (Record.ofEntries fs) gs) :=
    unify_struct h
  unfold combineField
  rw [if_neg hagree]
  split
  case h_1 =>
    rw [unify_null_left]
    exact .refl _
  case h_2 =>
    rw [unify_null_right]
    exact .refl _
  case h_3 fs gs =>
    rw [hstructs hagree]
    exact .refl _
  case h_4 =>
    rw [unify_list, unify_null_left]
    exact .refl _
  case h_5 =>
    rw [unify_list, unify_null_right]
    exact .refl _
  case h_6 fs gs =>
    rw [agrees] at hagree
    rw [unify_list, hstructs hagree]
    exact .refl _
  case h_7 =>
    rw [unify_list]
    exact .strings
  case h_8 => exact .string

/-- One more type leaves a field as close to its column as it was. -/
theorem Coarsened.step {c f t : ColumnType} (hc : c.Distinct) (hf : f.Distinct) (ht : t.Distinct)
    (h : Coarsened c f) : Coarsened (unify c t) (combineField f t) := by
  cases h with
  | alike h =>
    have hagree : (unify c t).agrees (unify f t) = true :=
      (unify_isJoin hc ht).congr (unify_isJoin hf ht) h (agrees_refl t)
    exact .of_agrees hagree (unify_coarsened f t)
  | string =>
    rw [combineField_string]
    exact .string
  | @strings s =>
    by_cases hlist : t.kind = .list
    · obtain ⟨u, rfl⟩ := eq_list_of_kind hlist
      rw [unify_list, combineField_strings]
      exact .strings
    · by_cases hnull : t = .null
      · subst hnull
        rw [unify_null_right, combineField_null_right]
        exact .strings
      · rw [combineField_list_of_kind_ne hlist hnull]
        exact .string

/-- The types of a list combined as those of one field, from the first on; none for no type. -/
def combineAll : List ColumnType → Option ColumnType
  | [] => none
  | t :: rest => some (rest.foldl combineField t)

/-- Over the same types, a field gives up structure that a column keeps, and nothing else. -/
theorem unifyAll_coarsened {ts : List ColumnType} (hts : ∀ t ∈ ts, t.Distinct) :
    Option.Rel Coarsened (unifyAll ts) (combineAll ts) := by
  cases ts with
  | nil => exact .none
  | cons t rest =>
    rw [List.forall_mem_cons] at hts
    have hfold : (rest.foldl unify t).Distinct ∧ (rest.foldl combineField t).Distinct ∧
        Coarsened (rest.foldl unify t) (rest.foldl combineField t) := by
      refine List.foldl_rel
        (r := fun c f => c.Distinct ∧ f.Distinct ∧ Coarsened c f) ⟨hts.1, hts.1, .refl t⟩ ?_
      rintro s hs c f ⟨hc, hf, h⟩
      have hsd := hts.2 s hs
      exact ⟨unify_distinct hc hsd, combineField_distinct hf hsd, h.step hc hf hsd⟩
    exact .some hfold.2.2

/-- Settled, a field has room for the column of the same values. -/
theorem settled_field_has_room {ts : List ColumnType} (hts : ∀ t ∈ ts, t.Distinct) :
    Option.Rel (fun column field => (unify column field).agrees field = true)
      ((unifyAll ts).map settle) ((combineAll ts).map settle) := by
  have hcoarsened := unifyAll_coarsened hts
  generalize unifyAll ts = column at hcoarsened ⊢
  generalize combineAll ts = field at hcoarsened ⊢
  cases hcoarsened with
  | none => exact .none
  | some h =>
    have hroom := h.settle.within
    exact .some ((within_iff_unify_agrees (settle_distinct _) (settle_distinct _)).mp hroom)

/-! ## Structs put together -/

theorem combineFields_eq_foldl (known gs : List (String × ColumnType)) :
    combineFields known gs =
      gs.foldl (fun known g =>
        Record.put g.1 ((get? g.1 known).elim g.2 (combineField · g.2)) known) known := by
  induction gs generalizing known with
  | nil => rw [combineFields, List.foldl_nil]
  | cons g rest ih =>
    rw [combineFields, ih, List.foldl_cons]
    cases get? g.1 known <;> rfl

theorem names_combineFields {known : List (String × ColumnType)} (hknown : Record.Distinct known)
    (gs : List (String × ColumnType)) :
    Record.names (combineFields known gs) =
      (Record.names known ++ Record.names gs).eraseDups := by
  rw [combineFields_eq_foldl]
  exact Record.names_foldl (fun _ _ => ⟨_, rfl⟩) gs hknown

/-- Two structs in a column: the names of both in first-seen order, and at each name the rules for
fields, also where the structs agree and the first one stays. -/
theorem unify_structs {fs gs : List (String × ColumnType)} (hfs : Record.Distinct fs)
    (hgs : Record.Distinct gs) :
    ∃ hs, unify (.struct fs) (.struct gs) = .struct hs ∧ Record.Distinct hs ∧
      Record.names hs = (Record.names fs ++ Record.names gs).eraseDups ∧
      ∀ name, get? name hs = (get? name fs).merge combineField (get? name gs) := by
  by_cases hagree : (ColumnType.struct fs).agrees (.struct gs) = true
  · have hrel := (agrees_struct_of_distinct hfs hgs).mp hagree
    refine ⟨fs, unify_of_agrees hagree, hfs, ?_, ?_⟩
    · apply Eq.symm
      apply Record.eraseDups_append_of_forall_mem hfs
      intro name hname
      have hrel := hrel name
      rw [← Record.isSome_get?] at hname ⊢
      generalize get? name fs = t at hrel ⊢
      generalize get? name gs = u at hrel hname
      cases hrel with
      | none => exact hname
      | some => rfl
    · intro name
      have hrel := hrel name
      generalize get? name fs = t at hrel ⊢
      generalize get? name gs = u at hrel ⊢
      cases hrel with
      | none => rfl
      | some h => rw [Option.merge_some_some, combineField_of_agrees h]
  · have hself : Record.ofEntries fs = fs := Record.ofEntries_eq_self hfs
    refine ⟨combineFields fs gs, ?_, combineFields_distinct gs hfs, names_combineFields hfs gs,
      get?_combineFields hgs⟩
    rw [unify_struct hagree, combineStructs, hself]

/-- Structs unified one after the other: all names in first-seen order, and at each name the types
that are there, combined as those of one field. -/
theorem foldl_unify_structs {fs : List (String × ColumnType)} (hfs : Record.Distinct fs)
    {rest : List (List (String × ColumnType))} (hrest : ∀ gs ∈ rest, Record.Distinct gs) :
    ∃ hs, (rest.map .struct).foldl unify (.struct fs) = .struct hs ∧ Record.Distinct hs ∧
      Record.names hs = ((fs :: rest).flatMap Record.names).eraseDups ∧
      ∀ name, get? name hs = combineAll ((fs :: rest).filterMap (get? name)) := by
  induction rest generalizing fs with
  | nil =>
    refine ⟨fs, rfl, hfs, ?_, ?_⟩
    · rw [List.flatMap_cons, List.flatMap_nil, List.append_nil, Record.eraseDups_of_nodup hfs]
    · intro name
      cases h : get? name fs <;> simp [h, combineAll]
  | cons gs rest ih =>
    rw [List.forall_mem_cons] at hrest
    obtain ⟨hs, heq, hhs, hnames, hget⟩ := unify_structs hfs hrest.1
    obtain ⟨js, heqs, hjs, hnamess, hgets⟩ := ih hhs hrest.2
    refine ⟨js, ?_, hjs, ?_, ?_⟩
    · rw [List.map_cons, List.foldl_cons, heq, heqs]
    · rw [hnamess, List.flatMap_cons, hnames, Record.eraseDups_eraseDups_append,
        List.flatMap_cons, List.flatMap_cons, List.append_assoc]
    · intro name
      rw [hgets]
      have hname := hget name
      cases hf : get? name fs <;> cases hg : get? name gs <;>
        simp [hf, hg, hname, combineAll]

/-- The structs of a list are unified to one. -/
theorem unifyAll_structs {fss : List (List (String × ColumnType))} (hsome : fss ≠ [])
    (hdistinct : ∀ fs ∈ fss, Record.Distinct fs) :
    ∃ hs, unifyAll (fss.map .struct) = some (.struct hs) ∧ Record.Distinct hs ∧
      Record.names hs = (fss.flatMap Record.names).eraseDups ∧
      ∀ name, get? name hs = combineAll (fss.filterMap (get? name)) := by
  cases fss with
  | nil => exact absurd rfl hsome
  | cons fs rest =>
    rw [List.forall_mem_cons] at hdistinct
    obtain ⟨hs, hfold, hstruct⟩ := foldl_unify_structs hdistinct.1 hdistinct.2
    exact ⟨hs, congrArg some hfold, hstruct⟩

end Columnar.ColumnType
