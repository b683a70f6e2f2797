import Columnar.Proofs.ColumnType.Join

/-!
# The algebra of unification

Unification and the combination of structs are associative, commutative and respect agreement, on
types whose structs name no field twice. All of it follows from the least upper bounds: a type is
known, up to agreement, from the types that have room for it, and what has room for a unified type
is what has room for its parts. So the fold over a list of types depends on its members alone, not
on their order, their repetition or the shards in which they are unified.
-/

namespace Columnar.ColumnType

open Record (last? get?)

/-! ## Distinct fields are kept -/

/-- Each combined field is a field of one struct, or combines a field of each. -/
theorem mem_combineFields {fs gs : List (String × ColumnType)} (hgs : Record.Distinct gs)
    {name : String} {j : ColumnType} (hj : (name, j) ∈ combineFields (Record.ofEntries fs) gs) :
    (name, j) ∈ fs ∨ (name, j) ∈ gs ∨
      ∃ t u, (name, t) ∈ fs ∧ (name, u) ∈ gs ∧ j = combineField t u := by
  have hnames := combineFields_distinct gs (Record.distinct_ofEntries fs)
  have hlast := Record.get?_of_mem hnames hj
  rw [← Record.last?_eq_get? hnames, last?_combineFields hgs, Option.merge_eq_some_iff] at hlast
  rcases hlast with ⟨ht, -⟩ | ⟨-, hu⟩ | ⟨t, u, ht, hu, rfl⟩
  · exact Or.inl (Record.mem_of_last? ht)
  · exact Or.inr (Or.inl (Record.mem_of_last? hu))
  · exact Or.inr (Or.inr ⟨t, u, Record.mem_of_last? ht, Record.mem_of_last? hu, rfl⟩)

theorem Distinct.combineStructs {fs gs : List (String × ColumnType)} (hfs : Distinct (.struct fs))
    (hgs : Distinct (.struct gs))
    (hshared : ∀ name t u, (name, t) ∈ fs → (name, u) ∈ gs → (combineField t u).Distinct) :
    Distinct (combineStructs fs gs) := by
  have hnames := combineFields_distinct gs (Record.distinct_ofEntries fs)
  refine ⟨hnames, allDistinct_iff.mpr fun name j hj => ?_⟩
  rcases mem_combineFields hgs.fields hj with ht | hu | ⟨t, u, ht, hu, rfl⟩
  · exact hfs.field ht
  · exact hgs.field hu
  · exact hshared name t u ht hu

theorem combineField_distinct {t u : ColumnType} (ht : t.Distinct) (hu : u.Distinct) :
    (combineField t u).Distinct := by
  induction t using fieldInduction generalizing u with
  | step t ih =>
  unfold combineField
  split
  · exact ht
  split
  case h_3 fs gs _ =>
    exact ht.combineStructs hu fun name s r hmem hr =>
      ih fs name s (Or.inl rfl) hmem (ht.field hmem) (hu.field hr)
  case h_6 fs gs _ =>
    exact ht.element.combineStructs hu.element fun name s r hmem hr =>
      ih fs name s (Or.inr rfl) hmem (ht.element.field hmem) (hu.element.field hr)
  all_goals first | exact ht | exact hu | trivial

theorem combineStructs_distinct {fs gs : List (String × ColumnType)}
    (hfs : Distinct (.struct fs)) (hgs : Distinct (.struct gs)) :
    Distinct (combineStructs fs gs) :=
  hfs.combineStructs hgs fun _ _ _ ht hu => combineField_distinct (hfs.field ht) (hgs.field hu)

theorem unify_distinct {t u : ColumnType} (ht : t.Distinct) (hu : u.Distinct) :
    (unify t u).Distinct := by
  unfold unify
  split
  · exact ht
  split
  case h_1 => exact hu
  case h_2 => exact ht
  case h_3 fs gs _ => exact combineStructs_distinct ht hu
  case h_4 t u _ => exact unify_distinct ht.element hu.element
  case h_5 =>
    split
    · unfold widen
      split <;> trivial
    · trivial

/-- The combination of two structs is a join in every place. -/
theorem combineStructs_isJoin (p : Place) {fs gs : List (String × ColumnType)}
    (hfs : Distinct (.struct fs)) (hgs : Distinct (.struct gs)) :
    IsJoin p (.struct fs) (.struct gs) (combineStructs fs gs) :=
  .combineFields hgs.fields fun _ _ _ ht hu =>
    combineField_isJoin (hfs.field (Record.mem_of_last? ht)) (hgs.field (Record.mem_of_last? hu))

/-! ## Folds -/

/-- The types of a list unified from the first on; none for no type. -/
def unifyAll : List ColumnType → Option ColumnType
  | [] => none
  | t :: rest => some (rest.foldl unify t)

theorem foldl_unify_distinct {ts : List ColumnType} {t : ColumnType} (ht : t.Distinct)
    (hts : ∀ s ∈ ts, s.Distinct) : (ts.foldl unify t).Distinct := by
  induction ts generalizing t with
  | nil => exact ht
  | cons s rest ih =>
    rw [List.forall_mem_cons] at hts
    exact ih (unify_distinct ht hts.1) hts.2

/-- What has room for a fold has room for its start and for every type of the list. -/
theorem within_foldl_unify {ts : List ColumnType} {t c : ColumnType} (ht : t.Distinct)
    (hts : ∀ s ∈ ts, s.Distinct) :
    Within .column (ts.foldl unify t) c ↔
      Within .column t c ∧ ∀ s ∈ ts, Within .column s c := by
  induction ts generalizing t with
  | nil => simp
  | cons s rest ih =>
    rw [List.forall_mem_cons] at hts ⊢
    rw [List.foldl_cons, ih (unify_distinct ht hts.1) hts.2, (unify_isJoin ht hts.1).within_iff,
      and_assoc]

theorem unifyAll_distinct {ts : List ColumnType} {t : ColumnType} (hts : ∀ s ∈ ts, s.Distinct)
    (h : unifyAll ts = some t) : t.Distinct := by
  cases ts with
  | nil => cases h
  | cons s rest =>
    cases h
    rw [List.forall_mem_cons] at hts
    exact foldl_unify_distinct hts.1 hts.2

theorem within_unifyAll {ts : List ColumnType} {t c : ColumnType} (hts : ∀ s ∈ ts, s.Distinct)
    (h : unifyAll ts = some t) :
    Within .column t c ↔ ∀ s ∈ ts, Within .column s c := by
  cases ts with
  | nil => cases h
  | cons s rest =>
    cases h
    rw [List.forall_mem_cons] at hts ⊢
    exact within_foldl_unify hts.1 hts.2

/-- Only membership matters to a fold. -/
theorem unifyAll_agrees_of_mem_iff {ts us : List ColumnType} {t u : ColumnType}
    (hts : ∀ s ∈ ts, s.Distinct) (hmem : ∀ s, s ∈ ts ↔ s ∈ us) (ht : unifyAll ts = some t)
    (hu : unifyAll us = some u) : t.agrees u = true := by
  refine Within.agrees_of_forall .column fun c => ?_
  have hus : ∀ s ∈ us, s.Distinct := fun s hs => hts s ((hmem s).mpr hs)
  rw [within_unifyAll hts ht, within_unifyAll hus hu]
  exact forall_congr' fun s => by rw [hmem]

theorem unifyAll_of_ne_nil {ts : List ColumnType} (h : ts ≠ []) : ∃ t, unifyAll ts = some t := by
  cases ts with
  | nil => exact absurd rfl h
  | cons t rest => exact ⟨_, rfl⟩

/-- Reordering a list changes the fold up to agreement at most. -/
theorem unifyAll_perm {ts us : List ColumnType} (hts : ∀ s ∈ ts, s.Distinct) (h : ts.Perm us) :
    Option.Rel (fun t u => t.agrees u = true) (unifyAll ts) (unifyAll us) := by
  by_cases hnil : ts = []
  · subst hnil
    rw [List.nil_perm.mp h]
    exact .none
  · have hnil' : us ≠ [] := fun hus => hnil (List.perm_nil.mp (hus ▸ h))
    obtain ⟨t, ht⟩ := unifyAll_of_ne_nil hnil
    obtain ⟨u, hu⟩ := unifyAll_of_ne_nil hnil'
    rw [ht, hu]
    exact .some (unifyAll_agrees_of_mem_iff hts (fun s => h.mem_iff) ht hu)

/-- Shards that are unified one by one have the same types above them as all their types. -/
theorem unifyAll_shards {shards : List (List ColumnType)} (hne : ∀ shard ∈ shards, shard ≠ [])
    (hdistinct : ∀ shard ∈ shards, ∀ t ∈ shard, t.Distinct) :
    ∃ parts, shards.mapM unifyAll = some parts ∧ parts.length = shards.length ∧
      (∀ t ∈ parts, t.Distinct) ∧
      ∀ c, (∀ t ∈ parts, Within .column t c) ↔ ∀ t ∈ shards.flatten, Within .column t c := by
  induction shards with
  | nil => exact ⟨[], rfl, rfl, by simp, by simp⟩
  | cons shard rest ih =>
    rw [List.forall_mem_cons] at hne hdistinct
    obtain ⟨parts, hparts, hlength, hpartsDistinct, habove⟩ := ih hne.2 hdistinct.2
    obtain ⟨t, ht⟩ := unifyAll_of_ne_nil hne.1
    refine ⟨t :: parts, ?_, congrArg (· + 1) hlength, ?_, fun c => ?_⟩
    · simp [List.mapM_cons, ht, hparts]
    · exact List.forall_mem_cons.mpr ⟨unifyAll_distinct hdistinct.1 ht, hpartsDistinct⟩
    · rw [List.forall_mem_cons, habove, within_unifyAll hdistinct.1 ht, List.flatten_cons,
        List.forall_mem_append]

/-! ## The laws -/

/-- Unification and the combination of structs are associative up to agreement, so a list may be
unified shard by shard, however it is cut. -/
theorem unify_associative :
    (∀ t u v : ColumnType, t.Distinct → u.Distinct → v.Distinct →
      (unify (unify t u) v).agrees (unify t (unify u v)) = true) ∧
    (∀ fs gs hs : List (String × ColumnType),
      Distinct (.struct fs) → Distinct (.struct gs) → Distinct (.struct hs) →
      ∃ fg gh l r, combine (.struct fs) (.struct gs) = .ok fg ∧ combine fg (.struct hs) = .ok l ∧
        combine (.struct gs) (.struct hs) = .ok gh ∧ combine (.struct fs) gh = .ok r ∧
        l.agrees r = true) ∧
    (∀ shards : List (List ColumnType), shards ≠ [] → (∀ shard ∈ shards, shard ≠ []) →
      (∀ shard ∈ shards, ∀ t ∈ shard, t.Distinct) →
      ∃ parts byShards whole, shards.mapM unifyAll = some parts ∧
        unifyAll parts = some byShards ∧ unifyAll shards.flatten = some whole ∧
        byShards.agrees whole = true) := by
  refine ⟨fun t u v ht hu hv => ?_, fun fs gs hs hf hg hh => ?_, fun shards hsome hne hd => ?_⟩
  · exact (unify_isJoin ht hu).assoc (unify_isJoin (unify_distinct ht hu) hv)
      (unify_isJoin hu hv) (unify_isJoin ht (unify_distinct hu hv))
  · have hfg := combineStructs_distinct hf hg
    have hgh := combineStructs_distinct hg hh
    refine ⟨_, _, _, _, rfl, rfl, rfl, rfl, ?_⟩
    exact (combineStructs_isJoin .field hf hg).assoc (combineStructs_isJoin .field hfg hh)
      (combineStructs_isJoin .field hg hh) (combineStructs_isJoin .field hf hgh)
  · obtain ⟨parts, hparts, hlength, hpartsDistinct, habove⟩ := unifyAll_shards hne hd
    have hpartsSome : parts ≠ [] := by
      rintro rfl
      exact hsome (List.length_eq_zero_iff.mp hlength.symm)
    obtain ⟨byShards, hby⟩ := unifyAll_of_ne_nil hpartsSome
    have hwhole : shards.flatten ≠ [] := by
      obtain ⟨shard, hshard⟩ := List.exists_mem_of_ne_nil _ hsome
      obtain ⟨t, ht⟩ := List.exists_mem_of_ne_nil _ (hne shard hshard)
      exact List.ne_nil_of_mem (List.mem_flatten.mpr ⟨shard, hshard, ht⟩)
    obtain ⟨whole, hw⟩ := unifyAll_of_ne_nil hwhole
    refine ⟨parts, byShards, whole, hparts, hby, hw, ?_⟩
    refine Within.agrees_of_forall .column fun c => ?_
    have hflat : ∀ t ∈ shards.flatten, t.Distinct := by
      intro t ht
      obtain ⟨shard, hshard, ht⟩ := List.mem_flatten.mp ht
      exact hd shard hshard t ht
    rw [within_unifyAll hpartsDistinct hby, habove, within_unifyAll hflat hw]

/-- Integers of two widths in a column and in a field, an empty list beside a list of structs, and
shards that repeat a type. -/
theorem unify_associative_nested :
    (unify (unify (.list .null) (.list (.struct [("a", .integer .w8)])))
        (.list (.struct [("a", .integer .w16), ("b", .null)]))).agrees
      (unify (.list .null) (unify (.list (.struct [("a", .integer .w8)]))
        (.list (.struct [("a", .integer .w16), ("b", .null)])))) = true ∧
    (∃ fg gh l r,
      combine (.struct [("a", .integer .w8)]) (.struct [("a", .integer .w16)]) = .ok fg ∧
      combine fg (.struct [("b", .any), ("a", .null)]) = .ok l ∧
      combine (.struct [("a", .integer .w16)]) (.struct [("b", .any), ("a", .null)]) = .ok gh ∧
      combine (.struct [("a", .integer .w8)]) gh = .ok r ∧ l.agrees r = true) ∧
    (∃ parts byShards whole,
      [[ColumnType.integer .w8, .null], [.integer .w16], [.integer .w8]].mapM unifyAll =
        some parts ∧
      unifyAll parts = some byShards ∧
      unifyAll [[ColumnType.integer .w8, .null], [.integer .w16], [.integer .w8]].flatten =
        some whole ∧
      byShards.agrees whole = true) := by
  refine ⟨unify_associative.1 _ _ _ ?_ ?_ ?_, unify_associative.2.1 _ _ _ ?_ ?_ ?_,
    unify_associative.2.2 _ ?_ ?_ ?_⟩
  all_goals simp [Distinct, AllDistinct, Record.Distinct, Record.names]

theorem agrees_struct_of_distinct {fs gs : List (String × ColumnType)}
    (hfs : Record.Distinct fs) (hgs : Record.Distinct gs) :
    (ColumnType.struct fs).agrees (.struct gs) = true ↔
      ∀ name, Option.Rel (fun t u => t.agrees u = true) (get? name fs) (get? name gs) := by
  rw [agrees_struct]
  exact forall_congr' fun name => by rw [Record.last?_eq_get? hfs, Record.last?_eq_get? hgs]

/-- A struct agrees with each reordering of its fields. -/
theorem agrees_of_perm {fs gs : List (String × ColumnType)} (hfs : Record.Distinct fs)
    (h : fs.Perm gs) : (ColumnType.struct fs).agrees (.struct gs) = true := by
  refine (agrees_struct_of_distinct hfs (hfs.perm h)).mpr fun name => ?_
  rw [← Record.get?_perm hfs h]
  cases get? name fs with
  | none => exact .none
  | some t => exact .some (agrees_refl t)

/-- Unification and the combination of structs commute and respect agreement, which is an
equivalence of types: it compares structs name by name, lists by their elements, and all other
types as they are. -/
theorem unify_commutes_and_respects_agreement :
    (∀ t u : ColumnType, t.Distinct → u.Distinct → (unify t u).agrees (unify u t) = true) ∧
    (∀ t t' u u' : ColumnType, t.Distinct → t'.Distinct → u.Distinct → u'.Distinct →
      t.agrees t' = true → u.agrees u' = true → (unify t u).agrees (unify t' u') = true) ∧
    (∀ fs gs : List (String × ColumnType), Distinct (.struct fs) → Distinct (.struct gs) →
      ∃ l r, combine (.struct fs) (.struct gs) = .ok l ∧ combine (.struct gs) (.struct fs) = .ok r ∧
        l.agrees r = true) ∧
    (∀ fs fs' gs gs' : List (String × ColumnType), Distinct (.struct fs) →
      Distinct (.struct fs') → Distinct (.struct gs) → Distinct (.struct gs') →
      (ColumnType.struct fs).agrees (.struct fs') = true →
      (ColumnType.struct gs).agrees (.struct gs') = true →
      ∃ l r, combine (.struct fs) (.struct gs) = .ok l ∧
        combine (.struct fs') (.struct gs') = .ok r ∧ l.agrees r = true) ∧
    Equivalence (fun t u : ColumnType => t.agrees u = true) ∧
    (∀ fs gs : List (String × ColumnType), Record.Distinct fs → Record.Distinct gs →
      ((ColumnType.struct fs).agrees (.struct gs) = true ↔
        ∀ name, Option.Rel (fun t u => t.agrees u = true) (get? name fs) (get? name gs))) ∧
    (∀ fs gs : List (String × ColumnType), Record.Distinct fs → fs.Perm gs →
      (ColumnType.struct fs).agrees (.struct gs) = true) ∧
    (∀ t u : ColumnType, (ColumnType.list t).agrees (.list u) = t.agrees u) ∧
    (∀ t u : ColumnType, t.isNested = false → (t.agrees u = true ↔ t = u)) := by
  refine ⟨fun t u ht hu => ?_, fun t t' u u' ht ht' hu hu' hagt hagu => ?_,
    fun fs gs hf hg => ⟨_, _, rfl, rfl, ?_⟩,
    fun fs fs' gs gs' hf hf' hg hg' hagf hagg => ⟨_, _, rfl, rfl, ?_⟩,
    agrees_equivalence, fun fs gs hf hg => agrees_struct_of_distinct hf hg,
    fun fs gs hf h => agrees_of_perm hf h, fun t u => by rw [agrees],
    fun t u ht => agrees_plain ht⟩
  · exact (unify_isJoin ht hu).comm (unify_isJoin hu ht)
  · exact (unify_isJoin ht hu).congr (unify_isJoin ht' hu') hagt hagu
  · exact (combineStructs_isJoin .field hf hg).comm (combineStructs_isJoin .field hg hf)
  · exact (combineStructs_isJoin .field hf hg).congr (combineStructs_isJoin .field hf' hg')
      hagf hagg

/-- Two structs, and the same structs with their fields in another order. -/
theorem unify_respects_reordered_fields :
    (unify (.struct [("a", .integer .w8), ("b", .list .null)])
        (.struct [("b", .list .date), ("c", .any)])).agrees
      (unify (.struct [("b", .list .null), ("a", .integer .w8)])
        (.struct [("c", .any), ("b", .list .date)])) = true ∧
    (unify (.struct [("a", .integer .w8), ("b", .list .null)])
        (.struct [("b", .list .date), ("c", .any)])).agrees
      (unify (.struct [("b", .list .date), ("c", .any)])
        (.struct [("a", .integer .w8), ("b", .list .null)])) = true ∧
    (ColumnType.struct [("b", .list .date), ("c", .any)]).agrees
      (.struct [("c", .any), ("b", .list .date)]) = true := by
  refine ⟨unify_commutes_and_respects_agreement.2.1 _ _ _ _ ?_ ?_ ?_ ?_ ?_ ?_,
    unify_commutes_and_respects_agreement.1 _ _ ?_ ?_,
    unify_commutes_and_respects_agreement.2.2.2.2.2.2.1 _ _ ?_ (List.Perm.swap _ _ _)⟩
  case refine_5 | refine_6 => decide
  all_goals simp [Distinct, AllDistinct, Record.Distinct, Record.names]

end Columnar.ColumnType
