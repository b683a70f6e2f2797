import Columnar.Proofs.Tree.WellFormed
import Columnar.Table

/-!
# The rows of documents

A row is a document or an item of one. Documents that are no maps, and hold none, are rows only
where there is no map at all, so the rows that are read together are all maps or all no maps. Which
nodes are selected is said here by the candidates that a document puts up; main statement:
`selects_selectRows`.
-/

namespace Columnar.Table

variable {expand : Bool}

/-! ## Candidates -/

/-- The nodes that a document puts up for rows: the items of a sequence if sequences are expanded,
and otherwise the document itself. -/
def candidates (expand : Bool) : Tree → List Tree
  | .sequence items => if expand then items else [.sequence items]
  | document => [document]

/-- The nodes that are maps, in order. -/
def mapsAmong (nodes : List Tree) : List Tree := nodes.filter fun node => node matches .map _

/-- The nodes that are selected from inputs, input by input: the maps among the candidates of the
documents, or, if no candidate of any input is a map, the documents that are not null. -/
inductive Selects (expand : Bool) (inputs : List (List Tree)) : List (List Tree) → Prop
  | maps : (∃ documents ∈ inputs, ∃ d ∈ documents, ∃ entries, .map entries ∈ candidates expand d) →
      Selects expand inputs
        (inputs.map fun documents => mapsAmong (documents.flatMap (candidates expand)))
  | documents : (∀ documents ∈ inputs, ∀ d ∈ documents, ∀ entries,
        .map entries ∉ candidates expand d) →
      Selects expand inputs (inputs.map fun documents => documents.filter (· ≠ .null))

theorem mem_mapsAmong {nodes : List Tree} {node : Tree} :
    node ∈ mapsAmong nodes ↔ node ∈ nodes ∧ ∃ entries, node = .map entries := by
  rw [mapsAmong, List.mem_filter]
  cases node <;> simp

theorem rowsOf_eq (d : Tree) : rowsOf expand d = mapsAmong (candidates expand d) := by
  cases d with
  | null | scalar | map => rfl
  | sequence items => cases expand <;> rfl

theorem mapRows_eq (documents : List Tree) :
    mapRows expand documents = mapsAmong (documents.flatMap (candidates expand)) := by
  rw [mapRows, mapsAmong, List.filter_flatMap]
  exact congrArg (documents.flatMap ·) (funext rowsOf_eq)

theorem filter_isNull (documents : List Tree) :
    (documents.filter fun t => !t.isNull) = documents.filter (· ≠ .null) := by
  apply List.filter_congr
  intro t _
  cases t <;> rfl

/-- An input has map rows exactly if a candidate in it is a map. -/
theorem mapRows_ne_nil_iff {documents : List Tree} : mapRows expand documents ≠ [] ↔
    ∃ d ∈ documents, ∃ entries, .map entries ∈ candidates expand d := by
  rw [mapRows_eq]
  constructor
  · intro h
    obtain ⟨node, hnode⟩ := List.exists_mem_of_ne_nil _ h
    obtain ⟨hnode, entries, rfl⟩ := mem_mapsAmong.mp hnode
    obtain ⟨d, hd, hcandidate⟩ := List.mem_flatMap.mp hnode
    exact ⟨d, hd, entries, hcandidate⟩
  · intro h
    obtain ⟨d, hd, entries, hcandidate⟩ := h
    have hnode := List.mem_flatMap.mpr ⟨d, hd, hcandidate⟩
    exact List.ne_nil_of_mem (mem_mapsAmong.mpr ⟨hnode, entries, rfl⟩)

/-- The rows that are read are the nodes that are selected. -/
theorem selects_selectRows (inputs : List (List Tree)) :
    Selects expand inputs (selectRows expand inputs) := by
  unfold selectRows
  dsimp only
  rw [List.all_map]
  split
  next hempty =>
    have hnone : ∀ documents ∈ inputs, mapRows expand documents = [] := fun documents hmem =>
      List.isEmpty_iff.mp (List.all_eq_true.mp hempty documents hmem)
    rw [List.map_congr_left fun documents _ => filter_isNull documents]
    refine .documents fun documents hmem d hd entries hcandidate => ?_
    exact mapRows_ne_nil_iff.mpr ⟨d, hd, entries, hcandidate⟩ (hnone documents hmem)
  next hsome =>
    rw [List.map_congr_left fun documents _ => mapRows_eq documents]
    obtain ⟨documents, hmem, hrows⟩ : ∃ documents ∈ inputs, mapRows expand documents ≠ [] := by
      simpa using hsome
    exact .maps ⟨documents, hmem, mapRows_ne_nil_iff.mp hrows⟩

/-! ## What is selected -/

theorem mem_candidates {d node : Tree} (h : node ∈ candidates expand d) :
    node = d ∨ node ∈ d.items := by
  unfold candidates at h
  split at h
  · split at h
    · exact Or.inr h
    · exact Or.inl (List.mem_singleton.mp h)
  · exact Or.inl (List.mem_singleton.mp h)

theorem mem_flatten_map {f : List Tree → List Tree} {inputs : List (List Tree)} {row : Tree} :
    row ∈ (inputs.map f).flatten ↔ ∃ documents ∈ inputs, row ∈ f documents := by
  rw [← List.flatMap_def, List.mem_flatMap]

namespace Selects

variable {inputs batches : List (List Tree)}

/-- Either all rows are maps or none is. -/
theorem uniform (h : Selects expand inputs batches) :
    (∀ row ∈ batches.flatten, row.isMap = true) ∨ ∀ row ∈ batches.flatten, row.isMap = false := by
  cases h with
  | maps =>
    refine Or.inl fun row hrow => ?_
    obtain ⟨documents, -, hrow⟩ := mem_flatten_map.mp hrow
    obtain ⟨-, entries, rfl⟩ := mem_mapsAmong.mp hrow
    rfl
  | documents hnone =>
    -- A map among the documents is a candidate, and no candidate is a map.
    refine Or.inr fun row hrow => ?_
    obtain ⟨documents, hdocuments, hrow⟩ := mem_flatten_map.mp hrow
    cases row with
    | null | scalar | sequence => rfl
    | map entries =>
      have hmem := (List.mem_filter.mp hrow).1
      exact absurd (List.mem_singleton.mpr rfl) (hnone documents hdocuments _ hmem entries)

/-- A row is a document or an item of one. -/
theorem mem_document (h : Selects expand inputs batches) {row : Tree}
    (hrow : row ∈ batches.flatten) :
    ∃ documents ∈ inputs, ∃ d ∈ documents, row = d ∨ row ∈ d.items := by
  cases h with
  | maps =>
    obtain ⟨documents, hdocuments, hrow⟩ := mem_flatten_map.mp hrow
    obtain ⟨d, hd, hcandidate⟩ := List.mem_flatMap.mp (mem_mapsAmong.mp hrow).1
    exact ⟨documents, hdocuments, d, hd, mem_candidates hcandidate⟩
  | documents =>
    obtain ⟨documents, hdocuments, hrow⟩ := mem_flatten_map.mp hrow
    exact ⟨documents, hdocuments, row, (List.mem_filter.mp hrow).1, Or.inl rfl⟩

theorem wellFormed (h : Selects expand inputs batches)
    (hwf : ∀ documents ∈ inputs, ∀ d ∈ documents, d.WellFormed) :
    ∀ row ∈ batches.flatten, row.WellFormed := by
  intro row hrow
  obtain ⟨documents, hdocuments, d, hd, hplace⟩ := h.mem_document hrow
  have hwf := hwf documents hdocuments d hd
  rcases hplace with rfl | hitem
  · exact hwf
  · cases d with
    | sequence items => exact hwf.item hitem
    | null | scalar | map => cases hitem

end Selects

end Columnar.Table
