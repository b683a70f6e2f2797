import Columnar.Proofs.Schema.Columns
import Columnar.Proofs.Schema.Sampling

/-!
# Inference does not depend on the order of documents

Without caps every document is looked at, and what is inferred from the documents is a fold over
the types of some of them: those under one key for a column, those that are no maps for the column
of whole documents, all of them for one type. Reordering the documents reorders each of these
lists, whatever batches they come in, and so leaves the schema alike.
-/

namespace Columnar.Schema

open ColumnType (unifyAll settle)

/-- Two schemas that differ at most in the order of columns and in the order of fields inside their
types. -/
structure Alike (s s' : Schema) : Prop where
  wholeDocuments : s.wholeDocuments = s'.wholeDocuments
  names : ∀ name, name ∈ s.names ↔ name ∈ s'.names
  types : ∀ name t t', (name, t) ∈ s.fields → (name, t') ∈ s'.fields → t.agrees t' = true

variable (config : Config)

/-- What was seen of two populations, with types that agree. -/
structure Columns.Alike (seen seen' : Columns) : Prop where
  types : ∀ name, Option.Rel (fun t u => t.agrees u = true) (Record.get? name seen.types)
    (Record.get? name seen'.types)
  fallback : Option.Rel (fun t u => t.agrees u = true) seen.fallback seen'.fallback
  distinct : Record.Distinct seen.types
  distinct' : Record.Distinct seen'.types

theorem settled_agrees {t t' : ColumnType} (name : String) (h : t.agrees t' = true) :
    (settled config name t).agrees (settled config name t') = true := by
  unfold settled
  split
  · exact h
  · exact ColumnType.settle_agrees h

theorem elim_settle_agrees {o o' : Option ColumnType}
    (h : Option.Rel (fun t u => t.agrees u = true) o o') :
    (o.elim .string settle).agrees (o'.elim .string settle) = true := by
  cases h with
  | none => exact ColumnType.agrees_refl _
  | some h => exact ColumnType.settle_agrees h

theorem isSome_eq_of_rel {R : ColumnType → ColumnType → Prop} {o o' : Option ColumnType}
    (h : Option.Rel R o o') : o.isSome = o'.isSome := by
  cases h <;> rfl

namespace Columns.Alike

variable {seen seen' : Columns}

theorem mem_names (h : Columns.Alike seen seen') (name : String) :
    name ∈ Record.names seen.types ↔ name ∈ Record.names seen'.types := by
  rw [← Record.isSome_get?, ← Record.isSome_get?, isSome_eq_of_rel (h.types name)]

theorem isEmpty (h : Columns.Alike seen seen') :
    seen.types.isEmpty = true ↔ seen'.types.isEmpty = true := by
  rw [Record.isEmpty_iff, Record.isEmpty_iff]
  exact forall_congr' fun name => by rw [h.mem_names]

/-- Columns alike make schemas alike. -/
theorem schema (h : Columns.Alike seen seen') :
    Schema.Alike (seen.schema config) (seen'.schema config) := by
  by_cases hempty : seen.types.isEmpty = true
  · rw [schema_of_isEmpty config hempty, schema_of_isEmpty config (h.isEmpty.mp hempty)]
    refine ⟨rfl, fun _ => Iff.rfl, fun name t t' ht ht' => ?_⟩
    rw [ofValues, List.mem_singleton, Prod.mk.injEq] at ht ht'
    obtain ⟨⟨-, rfl⟩, -, rfl⟩ := And.intro ht ht'
    exact elim_settle_agrees h.fallback
  · have hempty' : ¬ seen'.types.isEmpty = true := mt h.isEmpty.mpr hempty
    have hnames : ∀ name, name ∈ (seen.schema config).names ↔
        name ∈ (seen'.schema config).names := by
      intro name
      rw [names_schema config hempty, names_schema config hempty', h.mem_names]
    rw [schema_of_not_isEmpty config hempty, schema_of_not_isEmpty config hempty'] at hnames ⊢
    refine ⟨rfl, hnames, fun name t t' ht ht' => ?_⟩
    obtain ⟨e, he, heq⟩ := List.mem_map.mp ht
    obtain ⟨e', he', heq'⟩ := List.mem_map.mp ht'
    obtain ⟨rfl, rfl⟩ := Prod.mk.inj heq
    obtain ⟨hname, rfl⟩ := Prod.mk.inj heq'
    have hrel := h.types e.1
    rw [Record.get?_of_mem h.distinct he, ← hname, Record.get?_of_mem h.distinct' he'] at hrel
    rw [hname]
    cases hrel with
    | some hagree => exact settled_agrees config e.1 hagree

end Columns.Alike

/-! ## Permuted documents -/

theorem typesOf_distinct (documents : List Tree) :
    ∀ t ∈ documents.map (typeWith config), t.Distinct := by
  intro t ht
  obtain ⟨d, -, rfl⟩ := List.mem_map.mp ht
  exact typeWith_distinct config d

/-- Reordered documents are seen alike. -/
theorem seenIn_perm {documents documents' : List Tree} (h : documents.Perm documents') :
    Columns.Alike (seenIn config documents) (seenIn config documents') := by
  have hentries : (entriesOf documents).Perm (entriesOf documents') := h.flatMap_right _
  refine ⟨fun name => ?_, ?_, distinct_seenIn config _, distinct_seenIn config _⟩
  · cases hdeclared : Record.get? name config.declared with
    | some t =>
      rw [seenIn_types, seenIn_types, get?_foldl_addValue_declared config hdeclared,
        get?_foldl_addValue_declared config hdeclared]
      have hmem : name ∈ Record.names (entriesOf documents) ↔
          name ∈ Record.names (entriesOf documents') := (hentries.map Prod.fst).mem_iff
      simp only [hmem]
      split
      · exact .some (ColumnType.agrees_refl t)
      · exact .none
    | none =>
      rw [get?_seenIn config hdeclared, get?_seenIn config hdeclared]
      exact ColumnType.unifyAll_perm (typesOf_distinct config _)
        ((hentries.filterMap _).map _)
  · rw [seenIn_fallback, seenIn_fallback]
    exact ColumnType.unifyAll_perm (typesOf_distinct config _) ((h.filter _).map _)

/-- Without caps the schema of a population and the type of its documents do not depend on the
order of the documents or on the batches they come in, and the type of a sequence does not depend
on the order of its items. -/
theorem inference_reordering :
    (∀ config : Config, config.rowCap = none → config.batchCap = none →
      (∀ batches batches' : List (List Tree), batches.flatten.Perm batches'.flatten →
        Alike (infer config batches).result (infer config batches').result) ∧
      (∀ documents documents' : List Tree, documents.Perm documents' →
        (documentType config documents).result.agrees (documentType config documents').result =
          true)) ∧
    (∀ items items' : List Tree, items.Perm items' →
      (ColumnType.ofTree (.sequence items)).agrees (.ofTree (.sequence items')) = true) := by
  refine ⟨fun config hrows hbatches => ⟨fun batches batches' h => ?_, fun docs docs' h => ?_⟩,
    fun items items' h => ?_⟩
  · simp only [infer, inferFrom_eq, sample_uncapped hrows hbatches]
    exact (seenIn_perm config h).schema config
  · simp only [documentType, documentTypeFrom_eq, sample_uncapped hrows hbatches,
      List.flatten_singleton]
    exact elim_settle_agrees (ColumnType.unifyAll_perm (typesOf_distinct config _) (h.map _))
  · rw [ColumnType.ofTree, ColumnType.ofTree, ColumnType.agrees]
    refine ColumnType.Within.agrees_of_forall .column fun c => ?_
    rw [ColumnType.within_ofItems, ColumnType.within_ofItems]
    exact forall_congr' fun t => by rw [h.mem_iff]

/-- Two maps with different keys and types and a scalar beside them, in two orders and batches. -/
theorem inference_reordering_mixed :
    Alike
      (infer {} [[.map [("a", .scalar "1"), ("b", .sequence [])]],
        [.scalar "x", .map [("b", .sequence [.scalar "2.5"]), ("a", .scalar "300")]]]).result
      (infer {} [[.map [("b", .sequence [.scalar "2.5"]), ("a", .scalar "300")], .scalar "x",
        .map [("a", .scalar "1"), ("b", .sequence [])]]]).result ∧
    (documentType {} [.map [("a", .scalar "1")], .map [("a", .scalar "2")]]).result.agrees
      (documentType {} [.map [("a", .scalar "2")], .map [("a", .scalar "1")]]).result = true ∧
    (ColumnType.ofTree (.sequence [.scalar "1", .map [], .null])).agrees
      (.ofTree (.sequence [.map [], .scalar "1", .null])) = true := by
  refine ⟨(inference_reordering.1 {} rfl rfl).1 _ _ ?_,
    (inference_reordering.1 {} rfl rfl).2 _ _ (.swap _ _ _),
    inference_reordering.2 _ _ (.swap _ _ _)⟩
  exact (List.Perm.swap _ _ _).trans ((List.Perm.cons _ (.swap _ _ _)).trans (.swap _ _ _))

end Columnar.Schema
