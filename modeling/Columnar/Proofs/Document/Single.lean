import Columnar.Proofs.Document.Salvage

/-!
# Reading a single document

Where a stream may hold one document only, a second one is a fault, so strict reading yields at
most one document. Tolerant reading takes that fault like any other: it falls back on the segments,
and each segment is read as a stream of its own. Main statement: several documents are yielded
exactly where tolerant reading falls back on segments that have several among them.
-/

namespace Columnar.Yaml

theorem length_le_one_of_onlyTree {s : Reading} {trees : List Tree} (h : s.onlyTree = .ok trees) :
    trees.length ≤ 1 := by
  unfold Reading.onlyTree at h
  obtain ⟨⟨root?, t⟩, -, h⟩ := bind_eq_ok h
  cases root? with
  | none =>
    obtain rfl := Except.ok.inj h
    exact Nat.zero_le 1
  | some root =>
    obtain ⟨place, -, h⟩ := bind_eq_ok h
    cases place with
    | some place => cases h
    | none =>
      obtain ⟨tree, -, h⟩ := bind_eq_ok h
      obtain rfl := Except.ok.inj h
      exact Nat.le_refl 1

theorem length_le_one_of_readSingle {source : List Char} {trees : List Tree}
    (h : readSingle source = .ok trees) : trees.length ≤ 1 := by
  unfold readSingle at h
  split at h
  · cases h
  · exact length_le_one_of_onlyTree h

end Columnar.Yaml

namespace Columnar.Document

open Yaml (Fault)

/-- The segments that tolerant reading of an input falls back on. -/
def Input.segments : Input → List (List Char)
  | .text s => Document.segments (Text.unifyBreaks '\r' '\n' s.toList)
  | .bytes bs =>
    match Text.Utf8.decode bs with
    | .ok source => Document.segments (Text.unifyBreaks '\r' '\n' source)
    | .error _ => (decodedSegments bs).result

/-- The documents that are no nulls of segments that are not skipped, each read by itself. -/
def segmentDocuments (segments : List (List Char)) : List Tree :=
  segments.zipIdx.flatMap fun p =>
    if isSkipped p.1 then [] else yielded (strictly (separated p.2 p.1))

theorem eq_segmentDocuments_of_salvaged {segments : List (List Char)} {documents : List Tree}
    (h : salvaged (segmentAttempts 0 segments) = .ok documents) :
    documents = segmentDocuments segments := by
  unfold salvaged at h
  split at h
  · cases h
  · rw [← Except.ok.inj h, kept_segmentAttempts]
    rfl

/-- Reading ends with documents if the whole text does, or if it has a fault and its segments do. -/
theorem parseText_cases {mode : Mode} {source : List Char} {documents : List Tree}
    (h : (parseText mode source).result = .ok documents) :
    readWhole mode.multiple source = .ok documents ∨
      mode.tolerant = true ∧ salvaged (salvageAttempts source) = .ok documents ∧
        ∃ fault, readWhole mode.multiple source = .error fault ∧ ∀ r, fault ≠ .refused r := by
  cases hread : readWhole mode.multiple source with
  | ok trees =>
    have hwhole : (parseText mode source).result = .ok trees := by
      rw [parseText, hread]
      rfl
    obtain rfl := Except.ok.inj (hwhole.symm.trans h)
    exact Or.inl rfl
  | error fault =>
    by_cases hfault : ∃ r, fault = .refused r
    · obtain ⟨r, rfl⟩ := hfault
      rw [parseText_refused hread] at h
      cases h
    · have hkind : ∀ r, fault ≠ .refused r := fun r hr => hfault ⟨r, hr⟩
      rw [parseText_fault hread hkind] at h
      split at h
      · exact Or.inr ⟨‹_›, h, fault, rfl, hkind⟩
      · cases h

theorem parseText_single_cases {tolerant : Bool} {source : List Char} {documents : List Tree}
    (h : (parseText { tolerant, multiple := false } source).result = .ok documents) :
    (parseText { multiple := false } source).result = .ok documents ∧ documents.length ≤ 1 ∨
      tolerant = true ∧ (∃ e, (parseText { multiple := false } source).result = .error e) ∧
        salvaged (salvageAttempts source) = .ok documents := by
  rcases parseText_cases h with hread | ⟨htolerant, hsalvaged, fault, hread, hfault⟩
  · refine Or.inl ⟨?_, Yaml.length_le_one_of_readSingle hread⟩
    change readWhole false source = .ok documents at hread
    rw [parseText, hread]
    rfl
  · exact Or.inr ⟨htolerant, ⟨_, parseText_fault hread hfault⟩, hsalvaged⟩

/-- A single document is what strict reading yields; otherwise the documents are those of the
segments. -/
theorem parse_single_cases {tolerant : Bool} {input : Input} {documents : List Tree}
    (h : (parse { tolerant, multiple := false } input).result = .ok documents) :
    (parse { multiple := false } input).result = .ok documents ∧ documents.length ≤ 1 ∨
      tolerant = true ∧ (∃ e, (parse { multiple := false } input).result = .error e) ∧
        documents = segmentDocuments input.segments := by
  cases input with
  | text s =>
    refine (parseText_single_cases h).imp_right ?_
    exact fun ⟨htolerant, hstrict, hsalvaged⟩ =>
      ⟨htolerant, hstrict, eq_segmentDocuments_of_salvaged hsalvaged⟩
  | bytes bs =>
    unfold parse Input.segments at *
    dsimp only at h ⊢
    cases hdecode : Text.Utf8.decode bs with
    | ok source =>
      rw [hdecode] at h
      refine (parseText_single_cases h).imp_right ?_
      exact fun ⟨htolerant, hstrict, hsalvaged⟩ =>
        ⟨htolerant, hstrict, eq_segmentDocuments_of_salvaged hsalvaged⟩
    | error fault =>
      rw [hdecode] at h
      cases tolerant with
      | false => cases h
      | true =>
        refine Or.inr ⟨rfl, ⟨_, rfl⟩, eq_segmentDocuments_of_salvaged ?_⟩
        rw [← salvageSegments_result]
        exact h

/-- **Reading a single document yields several only from segments.** In tolerant and in strict
reading, of text and of bytes, more than one document is yielded exactly if reading is tolerant,
strict reading fails, and the segments, each read by itself, have more than one document that is no
null. Where strict reading fails, what is yielded are the documents of the segments. -/
theorem single_reading_yields_several_only_from_segments {tolerant : Bool} {input : Input}
    {documents : List Tree}
    (h : (parse { tolerant, multiple := false } input).result = .ok documents) :
    (1 < documents.length ↔ tolerant = true ∧
      (∃ e, (parse { multiple := false } input).result = .error e) ∧
      1 < (segmentDocuments input.segments).length) ∧
    (∀ e, (parse { multiple := false } input).result = .error e →
      documents = segmentDocuments input.segments) := by
  rcases parse_single_cases h with ⟨hstrict, hlength⟩ | ⟨htolerant, hstrict, rfl⟩
  · have hnone (e : ParseError) : (parse { multiple := false } input).result ≠ .error e := by
      rw [hstrict]
      rintro ⟨⟩
    refine ⟨⟨fun hmany => absurd hmany (Nat.not_lt.mpr hlength), ?_⟩, ?_⟩
    · rintro ⟨-, ⟨e, he⟩, -⟩
      exact absurd he (hnone e)
    · exact fun e he => absurd he (hnone e)
  · exact ⟨⟨fun hmany => ⟨htolerant, hstrict, hmany⟩, fun hmany => hmany.2.2⟩, fun _ _ => rfl⟩

/-- Tolerant reading of a single document yields two from a stream of two. -/
theorem single_reading_yields_both_documents :
    ∃ documents,
      (parse { tolerant := true, multiple := false } (.text "a: 1\n---\nb: 2\n")).result =
        .ok documents ∧
      1 < documents.length ∧
      documents = [.map [("a", .scalar "1")], .map [("b", .scalar "2")]] := by
  have hread : (parse { tolerant := true, multiple := false }
      (.text "a: 1\n---\nb: 2\n")).result.toOption =
        some [.map [("a", .scalar "1")], .map [("b", .scalar "2")]] := by decide +kernel
  have hfails : (parse { multiple := false } (.text "a: 1\n---\nb: 2\n")).result.isOk = false := by
    decide +kernel
  have hsegments : 1 < (segmentDocuments (Input.segments (.text "a: 1\n---\nb: 2\n"))).length := by
    decide +kernel
  cases hresult : (parse { tolerant := true, multiple := false }
      (.text "a: 1\n---\nb: 2\n")).result with
  | error e =>
    rw [hresult] at hread
    cases hread
  | ok documents =>
    rw [hresult] at hread
    have hstrict : ∃ e, (parse { multiple := false } (.text "a: 1\n---\nb: 2\n")).result =
        .error e := by
      cases hend : (parse { multiple := false } (.text "a: 1\n---\nb: 2\n")).result with
      | error e => exact ⟨e, rfl⟩
      | ok trees =>
        rw [hend] at hfails
        cases hfails
    have hseveral := single_reading_yields_several_only_from_segments hresult
    exact ⟨documents, rfl, hseveral.1.mpr ⟨rfl, hstrict, hsegments⟩, Option.some.inj hread⟩

end Columnar.Document
