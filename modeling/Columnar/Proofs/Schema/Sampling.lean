import Columnar.Schema.Infer

/-!
# Sampling cuts off the front

Inference counts batches and documents on its way through a population and stops where a cap is
reached. Here the two counters are seen to cut off the front of the population: as many batches as
one cap allows, and of their documents, put behind each other, as many as the other allows. What a
population has behind its front does not reach the result. Main statement:
`inference_reads_only_the_front`.
-/

namespace Columnar.Schema

/-- The front of a list, up to a cap. -/
def upTo {α : Type} (cap : Option Nat) (xs : List α) : List α := cap.elim xs xs.take

/-- The front of a population: what the caps leave of it. -/
def front (config : Config) (batches : List (List Tree)) : List Tree :=
  upTo config.rowCap (upTo config.batchCap batches).flatten

/-- The same parameters without the caps. -/
def Config.uncapped (config : Config) : Config :=
  { config with
    rowCap := none
    batchCap := none
    rowCap_pos := (Option.some_ne_none 0).symm
    batchCap_pos := (Option.some_ne_none 0).symm }

section Caps

variable {α : Type} {cap : Option Nat} {count : Nat}

theorem upTo_nil : upTo cap ([] : List α) = [] := by
  cases cap with
  | none => rfl
  | some n => exact List.take_nil

/-- Once a cap is reached, nothing more is taken. -/
theorem upTo_of_capReached (h : capReached cap count = true) (xs : List α) :
    upTo (cap.map (· - count)) xs = [] := by
  cases cap with
  | none => cases h
  | some n =>
    have hn : n ≤ count := by simpa [capReached] using h
    simp [upTo, Nat.sub_eq_zero_of_le hn]

/-- Before it is reached, one more is taken, and counted. -/
theorem upTo_cons_of_not_capReached (h : capReached cap count = false) (x : α) (xs : List α) :
    upTo (cap.map (· - count)) (x :: xs) = x :: upTo (cap.map (· - (count + 1))) xs := by
  cases cap with
  | none => rfl
  | some n =>
    have hn : count < n := by simpa [capReached] using h
    have hsucc : n - count = (n - (count + 1)) + 1 := by omega
    simp only [upTo, Option.map_some, Option.elim_some, hsucc, List.take_succ_cons]

end Caps

/-! ## The two loops -/

/-- One batch: if the cap stops in it, then nothing behind it counts; else the batch is taken
whole, and what is behind it is counted on. -/
theorem sampleBatch_append (rowCap : Option Nat) (taken : Nat) (batch more : List Tree) :
    upTo (rowCap.map (· - taken)) (batch ++ more) =
      (sampleBatch rowCap taken batch).1 ++
        if (sampleBatch rowCap taken batch).2 then []
        else upTo (rowCap.map (· - (taken + (sampleBatch rowCap taken batch).1.length))) more := by
  induction batch generalizing taken with
  | nil => rfl
  | cons node rest ih =>
    cases hcap : capReached rowCap taken with
    | true =>
      simp only [sampleBatch, hcap, if_true, List.cons_append, upTo_of_capReached hcap,
        List.append_nil]
    | false =>
      have hlength (n : Nat) : taken + 1 + n = taken + (n + 1) := by omega
      simp only [sampleBatch, hcap, Bool.false_eq_true, if_false, List.cons_append,
        upTo_cons_of_not_capReached hcap, ih (taken + 1), List.length_cons, hlength]

/-- All batches from one on: what the caps leave of them, less what was counted before. -/
theorem sampleFrom_result (config : Config) (index taken : Nat) (batches : List (List Tree)) :
    (sampleFrom config index taken batches).result =
      upTo (config.rowCap.map (· - taken))
        (upTo (config.batchCap.map (· - index)) batches).flatten := by
  induction batches generalizing index taken with
  | nil => rw [upTo_nil, List.flatten_nil, upTo_nil]; rfl
  | cons batch rest ih =>
    unfold sampleFrom
    cases hcap : capReached config.batchCap index with
    | true =>
      rw [upTo_of_capReached hcap, List.flatten_nil, upTo_nil]
      rfl
    | false =>
      rw [upTo_cons_of_not_capReached hcap, List.flatten_cons, sampleBatch_append]
      simp only [Bool.false_eq_true, if_false]
      split
      · rw [List.append_nil]
        rfl
      · rw [← ih]
        rfl

theorem sample_eq (config : Config) (batches : List (List Tree)) :
    sample config batches = front config batches := by
  have hzero (cap : Option Nat) : cap.map (· - 0) = cap := by cases cap <;> rfl
  rw [sample, sampling, sampleFrom_result, hzero, hzero, front]

theorem sample_uncapped {config : Config} (hrows : config.rowCap = none)
    (hbatches : config.batchCap = none) (batches : List (List Tree)) :
    sample config batches = batches.flatten := by
  simp only [sample_eq, front, upTo, hrows, hbatches, Option.elim_none]

theorem sample_singleton_uncapped (config : Config) (documents : List Tree) :
    sample config.uncapped [documents] = documents :=
  (sample_uncapped rfl rfl [documents]).trans List.flatten_singleton

/-! ## Inference -/

/-- The columns do not depend on the caps otherwise. -/
theorem inferFrom_uncapped (config : Config) (documents : List Tree) :
    inferFrom config.uncapped [documents] =
      (documents.foldl (Columns.add config) ⟨[], none⟩).schema config := by
  rw [inferFrom, sample_singleton_uncapped]
  rfl

theorem documentTypeFrom_uncapped (config : Config) (documents : List Tree) :
    documentTypeFrom config.uncapped documents =
      (documents.foldl (fun sofar node => some (unifyOnto sofar (typeWith config node))) none).elim
        .string ColumnType.settle := by
  rw [documentTypeFrom, sample_singleton_uncapped]
  rfl

/-- One batch is within every cap on batches. -/
theorem front_singleton (config : Config) (documents : List Tree) :
    front config [documents] = upTo config.rowCap documents := by
  have hbatches : upTo config.batchCap [documents] = [documents] := by
    cases hcap : config.batchCap with
    | none => rfl
    | some m =>
      have hpos : 0 < m := by
        refine Nat.pos_of_ne_zero ?_
        rintro rfl
        exact config.batchCap_pos hcap
      exact List.take_of_length_le hpos
  rw [front, hbatches, List.flatten_singleton]

/-- **Inference reads only the front of a population.** Under any caps the documents that are looked
at are the front: as many as the cap on rows allows of the batches that the cap on batches allows.
The schema of a population is the one that the same parameters without caps give for a single batch
that holds the front, so two populations with the same front have the same schema, whatever is
behind it. So it is with the type of whole documents, which come in one batch. -/
theorem inference_reads_only_the_front (config : Config) :
    (∀ batches : List (List Tree), sample config batches = front config batches) ∧
    (∀ batches : List (List Tree),
      (infer config batches).result = (infer config.uncapped [front config batches]).result) ∧
    (∀ batches batches' : List (List Tree), front config batches = front config batches' →
      (infer config batches).result = (infer config batches').result) ∧
    (∀ documents : List Tree,
      (documentType config documents).result =
        (documentType config.uncapped (upTo config.rowCap documents)).result) ∧
    (∀ documents documents' : List Tree,
      upTo config.rowCap documents = upTo config.rowCap documents' →
        (documentType config documents).result = (documentType config documents').result) := by
  have hschema (batches : List (List Tree)) :
      inferFrom config batches = inferFrom config.uncapped [front config batches] := by
    rw [inferFrom_uncapped, inferFrom, sample_eq]
  have htype (documents : List Tree) :
      documentTypeFrom config documents =
        documentTypeFrom config.uncapped (upTo config.rowCap documents) := by
    rw [documentTypeFrom_uncapped, documentTypeFrom, sample_eq, front_singleton]
  refine ⟨sample_eq config, hschema, fun batches batches' h => ?_, htype,
    fun documents documents' h => ?_⟩
  · change inferFrom config batches = inferFrom config batches'
    rw [hschema batches, hschema batches', h]
  · change documentTypeFrom config documents = documentTypeFrom config documents'
    rw [htype documents, htype documents', h]

/-- At most two documents, of at most two batches. -/
def Config.twoOfTwo : Config :=
  { rowCap := some 2, batchCap := some 2, rowCap_pos := by decide, batchCap_pos := by decide }

/-- An empty batch counts, and neither a third batch nor a third document is read. -/
theorem inference_reads_only_the_front_of_two_batches :
    sample .twoOfTwo [[], [.map [("a", .scalar "1")], .map [("b", .null)], .scalar "x"]] =
      [.map [("a", .scalar "1")], .map [("b", .null)]] ∧
    (infer .twoOfTwo [[], [.map [("a", .scalar "1")], .map [("b", .null)], .scalar "x"]]).result =
      .ofFields [("a", .integer .w8), ("b", .string)] ∧
    front .twoOfTwo [[], [.map [("a", .scalar "1")], .map [("b", .null)], .scalar "x"]] =
      front .twoOfTwo [[.map [("a", .scalar "1")]], [.map [("b", .null)]], [.map [("c", .null)]]] ∧
    (infer .twoOfTwo [[], [.map [("a", .scalar "1")], .map [("b", .null)], .scalar "x"]]).result =
      (infer .twoOfTwo
        [[.map [("a", .scalar "1")]], [.map [("b", .null)]], [.map [("c", .null)]]]).result ∧
    upTo Config.twoOfTwo.rowCap [Tree.scalar "1", .null, .null] =
      upTo Config.twoOfTwo.rowCap [.scalar "1", .null, .scalar "x"] ∧
    (documentType .twoOfTwo [.scalar "1", .null, .null]).result =
      (documentType .twoOfTwo [.scalar "1", .null, .scalar "x"]).result := by
  obtain ⟨hsample, hschema, hsame, -, htype⟩ := inference_reads_only_the_front .twoOfTwo
  refine ⟨hsample _, ?_, rfl, hsame _ _ rfl, rfl, htype _ _ rfl⟩
  rw [hschema]
  rfl

end Columnar.Schema
