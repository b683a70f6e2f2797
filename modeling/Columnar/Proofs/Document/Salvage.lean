import Columnar.Proofs.Document.Outcome
import Columnar.Proofs.Document.Segments
import Columnar.Proofs.Yaml.SeparatorStream

/-!
# What tolerant reading keeps of a stream

Texts are joined to a stream, and the stream does not parse. Main statement: tolerant reading then
yields the documents that strict reading finds in each text by itself, with the separator put back
in front of all but the first. Two steps of recovery show in it: a text that is blank or starts
with a comment is skipped, so that documents behind the comment are lost, and line breaks are
unified before the stream is cut.
-/

namespace Columnar.Document

open Yaml (Fault Refusal Alike)

/-- The strict reading of a text as a stream of documents. -/
def strictly (source : List Char) : Except ParseError (List Tree) :=
  (parse { tolerant := false } (.text (String.ofList source))).result

/-- The documents of a result that are no nulls. -/
def yielded (result : Except ParseError (List Tree)) : List Tree :=
  match result with
  | .ok documents => documents.filter fun t => !t.isNull
  | .error _ => []

/-- A text with a separator in front, unless it is the first one. -/
def separated (n : Nat) (text : List Char) : List Char :=
  if n = 0 then text else separator ++ '\n' :: text

theorem strictly_eq (source : List Char) :
    strictly source = match Yaml.readStream source with
      | .ok documents => .ok documents
      | .error f => .error (.ofFault source f) := by
  unfold strictly parse parseText readWhole
  dsimp only
  rw [String.toList_ofList, if_pos rfl]
  cases Yaml.readStream source with
  | ok documents => rfl
  | error f => rfl

/-- It makes no difference whether the separator is put back in front of a segment that starts with
one. -/
theorem readStream_segmentSource (n : Nat) (segment : List Char) :
    Alike Yaml.Reading.SameValues (Yaml.readStream (segmentSource n segment))
      (Yaml.readStream (separated n segment)) := by
  have hsame (source : List Char) : Alike Yaml.Reading.SameValues (Yaml.readStream source)
      (Yaml.readStream source) := (Alike.refl _).mono fun _ _ h => h ▸ rfl
  unfold segmentSource separated
  by_cases hn : n = 0
  · rw [if_pos (Or.inl hn), if_pos hn]
    exact hsame segment
  by_cases hprefix : separator.isPrefixOf segment = true
  · rw [if_pos (Or.inr hprefix), if_neg hn]
    obtain ⟨rest, rfl⟩ := List.isPrefixOf_iff_prefix.mp hprefix
    exact Yaml.readStream_separator rest
  · rw [if_neg (not_or.mpr ⟨hn, hprefix⟩), if_neg hn]
    exact hsame _

theorem kept_segmentSource (n : Nat) (segment : List Char) :
    (Attempt.ofStream (segmentSource n segment)).kept =
      yielded (strictly (separated n segment)) := by
  have halike := readStream_segmentSource n segment
  rw [strictly_eq]
  unfold Attempt.kept Attempt.ofStream
  generalize Yaml.readStream (segmentSource n segment) = x at halike ⊢
  generalize Yaml.readStream (separated n segment) = y at halike ⊢
  cases halike with
  | ok h => exact h
  | fault _ => rfl

theorem strictly_refused {source : List Char} {r : Refusal} :
    strictly source = .error (.refused r) ↔ (Attempt.ofStream source).refusal? = some r := by
  rw [strictly_eq, Attempt.refusal?_eq_some_iff, Attempt.ofStream]
  cases Yaml.readStream source with
  | ok documents => simp
  | error f => cases f <;> simp [ParseError.ofFault]

theorem refusal?_segmentSource (n : Nat) (segment : List Char) :
    (Attempt.ofStream (segmentSource n segment)).refusal? =
      (Attempt.ofStream (separated n segment)).refusal? := by
  have halike := readStream_segmentSource n segment
  have hfault (source : List Char) (f : Fault) : (Attempt.mk source (.error f)).refusal? =
      f.refusal? := by cases f <;> rfl
  unfold Attempt.ofStream
  generalize Yaml.readStream (segmentSource n segment) = x at halike ⊢
  generalize Yaml.readStream (separated n segment) = y at halike ⊢
  cases halike with
  | ok _ => rfl
  | fault h => rw [hfault, hfault, h]

/-- What is kept of segments numbered from `n`, each by itself. -/
theorem kept_segmentAttempts (n : Nat) (segments : List (List Char)) :
    (segmentAttempts n segments).flatMap Attempt.kept =
      (segments.zipIdx n).flatMap fun p =>
        if isSkipped p.1 then [] else yielded (strictly (separated p.2 p.1)) := by
  induction segments generalizing n with
  | nil => rfl
  | cons segment rest ih =>
    rw [segmentAttempts, List.zipIdx_cons, List.flatMap_cons, ← ih (n + 1)]
    by_cases hskip : isSkipped segment = true
    · rw [if_pos hskip, if_pos hskip, List.nil_append]
    · rw [if_neg hskip, if_neg hskip, List.flatMap_cons, kept_segmentSource]

theorem refusalAmong_segmentAttempts {n : Nat} {segments : List (List Char)}
    (h : ∀ p ∈ segments.zipIdx n, isSkipped p.1 = false →
      ∀ r, strictly (separated p.2 p.1) ≠ .error (.refused r)) :
    refusalAmong (segmentAttempts n segments) = none := by
  induction segments generalizing n with
  | nil => rfl
  | cons segment rest ih =>
    rw [List.zipIdx_cons] at h
    have hmore := ih fun p hp => h p (List.mem_cons_of_mem _ hp)
    rw [segmentAttempts]
    by_cases hskip : isSkipped segment = true
    · rw [if_pos hskip]
      exact hmore
    · have hfirst : (Attempt.ofStream (segmentSource n segment)).refusal? = none := by
        rw [refusal?_segmentSource]
        cases hr : (Attempt.ofStream (separated n segment)).refusal? with
        | none => rfl
        | some r =>
          have hstrict := h (segment, n) List.mem_cons_self (Bool.eq_false_iff.mpr hskip) r
          exact absurd (strictly_refused.mpr hr) hstrict
      rw [if_neg hskip, refusalAmong, List.findSome?_cons, hfirst]
      exact hmore

/-- **Tolerant reading keeps what each text of a stream yields by itself.** Texts without separator
lines are joined to a stream that strict reading fails on. Then tolerant reading yields, in order,
the documents that are no nulls which strict reading finds in each text, with the separator put
back in front of all but the first; a text that fails yields none. Texts that are blank or start
with a comment are skipped, and the texts are those with unified line breaks, which makes no
difference where there are no carriage returns. It is supposed that none of them is refused. -/
theorem tolerant_reading_keeps_each_text (multiple : Bool) {texts : List (List Char)}
    {e : ParseError} (hne : texts ≠ []) (huncut : ∀ s ∈ texts, IsUncut s)
    (hwhole : (parse { tolerant := false, multiple }
      (.text (String.ofList (streamOf texts)))).result = .error e)
    (he : e.IsDocumented)
    (hrefused : ∀ p ∈ (unifiedTexts texts).zipIdx, isSkipped p.1 = false →
      ∀ r, strictly (separated p.2 p.1) ≠ .error (.refused r)) :
    (parse { tolerant := true, multiple } (.text (String.ofList (streamOf texts)))).result =
      .ok ((unifiedTexts texts).zipIdx.flatMap fun p =>
        if isSkipped p.1 then [] else yielded (strictly (separated p.2 p.1))) ∧
    ((∀ s ∈ texts, '\r' ∉ s) → unifiedTexts texts = texts) := by
  refine ⟨?_, unifiedTexts_eq_self⟩
  obtain ⟨fault, hfault, hkind⟩ : ∃ fault, readWhole multiple (streamOf texts) = .error fault ∧
      ∀ r, fault ≠ .refused r := by
    unfold parse parseText at hwhole
    dsimp only at hwhole
    rw [String.toList_ofList] at hwhole
    cases hread : readWhole multiple (streamOf texts) with
    | ok documents =>
      rw [hread] at hwhole
      cases hwhole
    | error fault =>
      rw [hread] at hwhole
      refine ⟨fault, rfl, ?_⟩
      rintro r rfl
      cases hwhole
      exact he
  have hsalvaged : (parseText { tolerant := true, multiple } (streamOf texts)).result = _ :=
    parseText_fault hfault hkind
  have hattempts : salvageAttempts (streamOf texts) = segmentAttempts 0 (unifiedTexts texts) := by
    rw [salvageAttempts, segments_unifyBreaks_streamOf hne huncut]
  unfold parse
  dsimp only
  rw [String.toList_ofList, hsalvaged, if_pos rfl, hattempts, salvaged,
    refusalAmong_segmentAttempts hrefused, kept_segmentAttempts]

/-- A document behind a comment is lost, as its text is skipped. -/
theorem tolerant_reading_skips_commented_document :
    ¬∀ (texts : List (List Char)) (e : ParseError), texts ≠ [] → (∀ s ∈ texts, IsUncut s) →
      (parse { tolerant := false } (.text (String.ofList (streamOf texts)))).result = .error e →
      e.IsDocumented →
      (parse { tolerant := true } (.text (String.ofList (streamOf texts)))).result =
        .ok (texts.zipIdx.flatMap fun p => yielded (strictly (separated p.2 p.1))) := by
  intro h
  have huncut : ∀ s ∈ ["# note\na: 1".toList, "b: [".toList], ∀ l ∈ Text.lines s,
      isSeparator l = false := by decide +kernel
  have hnone : refusalAmong (Input.attempts { tolerant := false } (.text (String.ofList
      (streamOf ["# note\na: 1".toList, "b: [".toList])))) = none := by decide +kernel
  rcases (parse_settles _ _).documented hnone with ⟨documents, hok⟩ | ⟨-, e, he, hwhole⟩
  · have hfails : (parse { tolerant := false } (.text (String.ofList
        (streamOf ["# note\na: 1".toList, "b: [".toList])))).result.isOk = false := by
      decide +kernel
    rw [hok] at hfails
    cases hfails
  · have hlost : ((parse { tolerant := true } (.text (String.ofList
        (streamOf ["# note\na: 1".toList, "b: [".toList])))).result.toOption) = some [] := by
      decide +kernel
    have hfound : (["# note\na: 1".toList, "b: [".toList].zipIdx.flatMap fun p =>
        yielded (strictly (separated p.2 p.1))) = [.map [("a", .scalar "1")]] := by decide +kernel
    have hkept := h _ e (by decide) huncut hwhole he
    rw [hkept, hfound] at hlost
    cases hlost

/-- The texts around a broken one are kept. -/
theorem tolerant_reading_keeps_texts_around_fault :
    (parse { tolerant := true } (.text "a: 1\n---\nb: [\n---\nc: 2")).result =
      .ok [.map [("a", .scalar "1")], .map [("c", .scalar "2")]] := by
  have hjoined : String.ofList (streamOf ["a: 1".toList, "b: [".toList, "c: 2".toList]) =
      "a: 1\n---\nb: [\n---\nc: 2" := by decide +kernel
  have huncut : ∀ s ∈ ["a: 1".toList, "b: [".toList, "c: 2".toList], ∀ l ∈ Text.lines s,
      isSeparator l = false := by decide +kernel
  have hnone : refusalAmong (Input.attempts { tolerant := false }
      (.text "a: 1\n---\nb: [\n---\nc: 2")) = none := by decide +kernel
  have hsegments : ∀ p ∈ (unifiedTexts ["a: 1".toList, "b: [".toList, "c: 2".toList]).zipIdx,
      (Attempt.ofStream (separated p.2 p.1)).refusal? = none := by decide +kernel
  have hkept : ((unifiedTexts ["a: 1".toList, "b: [".toList, "c: 2".toList]).zipIdx.flatMap
      fun p => if isSkipped p.1 then [] else yielded (strictly (separated p.2 p.1))) =
        [.map [("a", .scalar "1")], .map [("c", .scalar "2")]] := by decide +kernel
  rcases (parse_settles _ _).documented hnone with ⟨documents, hok⟩ | ⟨-, e, he, hwhole⟩
  · have hfails : (parse { tolerant := false }
        (.text "a: 1\n---\nb: [\n---\nc: 2")).result.isOk = false := by decide +kernel
    rw [hok] at hfails
    cases hfails
  · rw [← hjoined] at hwhole ⊢
    have htolerant := tolerant_reading_keeps_each_text true (by decide) huncut hwhole he
      fun p hp _ r hr => by
        rw [strictly_refused, hsegments p hp] at hr
        cases hr
    exact htolerant.1.trans (congrArg Except.ok hkept)

end Columnar.Document
