import Columnar.Document.Parse
import Columnar.Proofs.Yaml.Stream

/-!
# How reading documents ends

Strict reading ends with documents or with an error that is documented: a fault of the text, or
bytes that are no text. Tolerant reading always ends with documents. The refused constructs are the
exception to both. Main statement: reading, tolerant or not, is refused exactly if the reading of
the whole text or of one of its segments is, and then the construct occurs in what was read.
-/

namespace Columnar.Yaml

/-- The text has the refused construct: among its lexemes, or as a document with a collection as
the key of a mapping. -/
def Refusal.OccursIn (r : Refusal) (source : List Char) : Prop :=
  r.WrittenIn source ∨ r = .collectionKey ∧
    ∃ root g, (Reading.start source).Meets true root g ∧ g.HasCollectionKey root.id

theorem occursIn_of_refuses {source : List Char} {r : Refusal}
    (h : (Reading.start source).Refuses true r) : r.OccursIn source :=
  h.imp TokenStream.ofText_refusal id

theorem unacceptable?_ne_refused {source : List Char} {r : Refusal} :
    unacceptable? source ≠ some (.refused r) := by
  intro h
  obtain ⟨i, -, hi⟩ := Option.map_eq_some_iff.mp h
  cases hi

theorem readStream_refusal {source : List Char} {r : Refusal}
    (h : readStream source = .error (.refused r)) : r.OccursIn source := by
  unfold readStream at h
  split at h
  · rename_i hfault
    cases h
    exact absurd hfault unacceptable?_ne_refused
  · exact occursIn_of_refuses (Reading.trees_refusal _ _ _ h)

theorem readSingle_refusal {source : List Char} {r : Refusal}
    (h : readSingle source = .error (.refused r)) : r.OccursIn source := by
  unfold readSingle at h
  split at h
  · rename_i hfault
    cases h
    exact absurd hfault unacceptable?_ne_refused
  · exact occursIn_of_refuses (Reading.onlyTree_refusal h)

end Columnar.Yaml

namespace Columnar.Document

open Yaml (Fault Refusal)

/-- An error that reading is documented to end with. -/
def ParseError.IsDocumented : ParseError → Prop
  | .fault f _ => ∀ r, f ≠ .refused r
  | .encoding _ => True
  | .refused _ => False

/-- A text that was read, and how that ended. -/
structure Attempt where
  source : List Char
  outcome : Except Fault (List Tree)

namespace Attempt

def ofStream (source : List Char) : Attempt := ⟨source, Yaml.readStream source⟩

def ofWhole (multiple : Bool) (source : List Char) : Attempt := ⟨source, readWhole multiple source⟩

/-- The reason for which the reading was refused. -/
def refusal? (a : Attempt) : Option Refusal :=
  match a.outcome with
  | .error (.refused r) => some r
  | _ => none

/-- The documents that are kept of a segment: nulls do not count. -/
def kept (a : Attempt) : List Tree :=
  match a.outcome with
  | .ok documents => documents.filter fun t => !t.isNull
  | .error _ => []

theorem refusal?_eq_some_iff {a : Attempt} {r : Refusal} :
    a.refusal? = some r ↔ a.outcome = .error (.refused r) := by
  unfold refusal?
  split
  · rename_i h
    simp [h]
  · rename_i h
    simp only [reduceCtorEq, false_iff]
    exact h r

end Attempt

/-- The readings of segments numbered from `n`. -/
def segmentAttempts : Nat → List (List Char) → List Attempt
  | _, [] => []
  | n, segment :: rest =>
    if isSkipped segment then segmentAttempts (n + 1) rest
    else .ofStream (segmentSource n segment) :: segmentAttempts (n + 1) rest

/-- The readings of the segments of a text. -/
def salvageAttempts (source : List Char) : List Attempt :=
  segmentAttempts 0 (segments (Text.unifyBreaks '\r' '\n' source))

/-- The readings that are made of a text. -/
def textAttempts (mode : Mode) (source : List Char) : List Attempt :=
  .ofWhole mode.multiple source ::
    if mode.tolerant && !(readWhole mode.multiple source).isOk then salvageAttempts source else []

def Input.attempts (mode : Mode) : Input → List Attempt
  | .text s => textAttempts mode s.toList
  | .bytes bs =>
    match Text.Utf8.decode bs with
    | .ok source => textAttempts mode source
    | .error _ => if mode.tolerant then segmentAttempts 0 (decodedSegments bs).result else []

def refusalAmong (attempts : List Attempt) : Option Refusal := attempts.findSome? Attempt.refusal?

/-- What reading attempts amount to: the documents that are kept, unless one is refused. -/
def salvaged (attempts : List Attempt) : Except ParseError (List Tree) :=
  match refusalAmong attempts with
  | some r => .error (.refused r)
  | none => .ok (attempts.flatMap Attempt.kept)

theorem salvaged_cons_refused {a : Attempt} {r : Refusal} (h : a.refusal? = some r)
    (attempts : List Attempt) : salvaged (a :: attempts) = .error (.refused r) := by
  rw [salvaged, refusalAmong, List.findSome?_cons, h]

theorem salvaged_cons {a : Attempt} (h : a.refusal? = none) (attempts : List Attempt) :
    salvaged (a :: attempts) = (salvaged attempts).map (a.kept ++ ·) := by
  unfold salvaged refusalAmong
  rw [List.findSome?_cons, h]
  cases attempts.findSome? Attempt.refusal? with
  | some r => rfl
  | none => rfl

/-- What becomes of a segment that is not skipped depends on the reading of its text. -/
theorem readSegment_cases (n : Nat) {segment : List Char} (h : isSkipped segment = false) :
    let a := Attempt.ofStream (segmentSource n segment)
    (∃ r, a.refusal? = some r ∧ readSegment n segment = .refused r) ∨
      a.refusal? = none ∧ (readSegment n segment = .kept a.kept ∨
        a.kept = [] ∧ ∃ reason, readSegment n segment = .discarded reason) := by
  unfold readSegment Attempt.refusal? Attempt.kept Attempt.ofStream
  rw [h]
  dsimp only
  cases hread : Yaml.readStream (segmentSource n segment) with
  | ok documents => exact Or.inr ⟨rfl, Or.inl (by simp)⟩
  | error fault =>
    cases fault with
    | refused r => exact Or.inl ⟨r, rfl, by simp⟩
    | unacceptable | marked | recursive =>
      exact Or.inr ⟨rfl, Or.inr ⟨rfl, by simp⟩⟩

/-- Segments are read one after the other. -/
theorem readSegments_result (n : Nat) (segments : List (List Char)) :
    (readSegments n segments).result = salvaged (segmentAttempts n segments) := by
  induction segments generalizing n with
  | nil => rfl
  | cons segment rest ih =>
    have hmore := ih (n + 1)
    unfold readSegments segmentAttempts
    cases hskip : isSkipped segment with
    | true =>
      have hread : readSegment n segment = .skipped := by
        rw [readSegment, hskip]
        rfl
      rw [hread]
      exact hmore
    | false =>
      rw [if_neg (by decide)]
      rcases readSegment_cases n hskip with ⟨r, hr, hread⟩ | ⟨hnone, hread | ⟨hkept, reason, hread⟩⟩
      · rw [hread, salvaged_cons_refused hr]
        rfl
      · rw [hread, salvaged_cons hnone, ← hmore]
        rfl
      · rw [hread, salvaged_cons hnone, hkept, ← hmore]
        change (readSegments (n + 1) rest).result = _
        cases (readSegments (n + 1) rest).result <;> rfl

theorem salvageSegments_result (segments : List (List Char)) :
    (salvageSegments segments).result = salvaged (segmentAttempts 0 segments) := by
  rw [← readSegments_result]
  unfold salvageSegments
  change (ite _ _ _ : Noted _).result = _
  split <;> rfl

/-- A refused reading ends with the refusal, and every other one as it is documented to. -/
structure Settles {α : Type} (refusal : Option Refusal) (result : Except ParseError α)
    (Documented : Except ParseError α → Prop) : Prop where
  refused : ∀ r, refusal = some r → result = .error (.refused r)
  documented : refusal = none → Documented result

namespace Settles

variable {α : Type} {result : Except ParseError α} {P Q : Except ParseError α → Prop}

theorem of_refused {r : Refusal} :
    Settles (some r) (.error (.refused r) : Except ParseError α) P where
  refused := by
    rintro _ ⟨⟩
    rfl
  documented := by
    rintro ⟨⟩

theorem of_documented (h : P result) : Settles none result P where
  refused := by
    rintro _ ⟨⟩
  documented _ := h

theorem mono {refusal : Option Refusal} (h : Settles refusal result P)
    (hPQ : P result → Q result) : Settles refusal result Q :=
  ⟨h.refused, fun hnone => hPQ (h.documented hnone)⟩

end Settles

/-- Strict reading ends with documents or an error that is documented, tolerant reading with
documents. -/
def EndsAsDocumented (mode : Mode) (result : Except ParseError (List Tree)) : Prop :=
  (∃ documents, result = .ok documents) ∨
    mode.tolerant = false ∧ ∃ e, e.IsDocumented ∧ result = .error e

theorem salvaged_settles (attempts : List Attempt) :
    Settles (refusalAmong attempts) (salvaged attempts)
      fun result => ∃ documents, result = .ok documents := by
  unfold salvaged
  cases refusalAmong attempts with
  | some r => exact .of_refused
  | none => exact .of_documented ⟨_, rfl⟩

/-- A text that is refused as a whole is not looked at further. -/
theorem textAttempts_refused {mode : Mode} {source : List Char} {r : Refusal}
    (h : readWhole mode.multiple source = .error (.refused r)) :
    refusalAmong (textAttempts mode source) = some r := by
  have hwhole : (Attempt.ofWhole mode.multiple source).refusal? = some r :=
    Attempt.refusal?_eq_some_iff.mpr h
  rw [textAttempts, refusalAmong, List.findSome?_cons, hwhole]

theorem parseText_refused {mode : Mode} {source : List Char} {r : Refusal}
    (h : readWhole mode.multiple source = .error (.refused r)) :
    (parseText mode source).result = .error (.refused r) := by
  unfold parseText
  rw [h]
  cases mode.tolerant <;> rfl

/-- A text with a fault is looked at by segments, in tolerant reading. -/
theorem textAttempts_fault {mode : Mode} {source : List Char} {fault : Fault}
    (h : readWhole mode.multiple source = .error fault) (hfault : ∀ r, fault ≠ .refused r) :
    refusalAmong (textAttempts mode source) =
      if mode.tolerant then refusalAmong (salvageAttempts source) else none := by
  have hwhole : (Attempt.ofWhole mode.multiple source).refusal? = none := by
    cases hrefusal : (Attempt.ofWhole mode.multiple source).refusal? with
    | none => rfl
    | some r =>
      have houtcome := Attempt.refusal?_eq_some_iff.mp hrefusal
      rw [Attempt.ofWhole, h] at houtcome
      exact absurd (Except.error.inj houtcome) (hfault r)
  rw [textAttempts, refusalAmong, List.findSome?_cons, hwhole, h]
  cases mode.tolerant <;> rfl

theorem parseText_fault {mode : Mode} {source : List Char} {fault : Fault}
    (h : readWhole mode.multiple source = .error fault) (hfault : ∀ r, fault ≠ .refused r) :
    (parseText mode source).result =
      if mode.tolerant then salvaged (salvageAttempts source)
      else .error (.fault fault source) := by
  have hofFault : ParseError.ofFault source fault = .fault fault source := by
    cases fault with
    | refused r => exact absurd rfl (hfault r)
    | unacceptable | marked | recursive => rfl
  unfold parseText
  rw [h]
  dsimp only
  rw [hofFault]
  cases mode.tolerant with
  | false => rfl
  | true => exact salvageSegments_result _

theorem parseText_settles (mode : Mode) (source : List Char) :
    Settles (refusalAmong (textAttempts mode source)) (parseText mode source).result
      (EndsAsDocumented mode) := by
  cases hread : readWhole mode.multiple source with
  | ok documents =>
    have hresult : (parseText mode source).result = .ok documents := by
      rw [parseText, hread]
      rfl
    have hnone : refusalAmong (textAttempts mode source) = none := by
      rw [textAttempts, hread, refusalAmong, List.findSome?_cons, Attempt.ofWhole,
        Attempt.refusal?, hread]
      simp [Except.isOk, Except.toBool]
    rw [hnone, hresult]
    exact .of_documented (Or.inl ⟨documents, rfl⟩)
  | error fault =>
    by_cases hfault : ∃ r, fault = .refused r
    · obtain ⟨r, rfl⟩ := hfault
      rw [textAttempts_refused hread, parseText_refused hread]
      exact .of_refused
    · have hfault' : ∀ r, fault ≠ .refused r := fun r hr => hfault ⟨r, hr⟩
      rw [textAttempts_fault hread hfault', parseText_fault hread hfault']
      cases htolerant : mode.tolerant with
      | true =>
        rw [if_pos rfl, if_pos rfl]
        exact (salvaged_settles _).mono Or.inl
      | false =>
        exact .of_documented (Or.inr ⟨htolerant, .fault fault source, hfault', rfl⟩)

theorem parse_settles (mode : Mode) (input : Input) :
    Settles (refusalAmong (input.attempts mode)) (parse mode input).result
      (EndsAsDocumented mode) := by
  cases input with
  | text s => exact parseText_settles mode s.toList
  | bytes bs =>
    unfold parse Input.attempts
    dsimp only
    cases Text.Utf8.decode bs with
    | ok source => exact parseText_settles mode source
    | error fault =>
      cases htolerant : mode.tolerant with
      | true =>
        have hsalvaged := salvaged_settles (segmentAttempts 0 (decodedSegments bs).result)
        rw [← salvageSegments_result] at hsalvaged
        exact hsalvaged.mono Or.inl
      | false => exact .of_documented (Or.inr ⟨htolerant, .encoding fault, trivial, rfl⟩)

theorem segmentAttempts_ofStream {a : Attempt} (n : Nat) (segments : List (List Char))
    (h : a ∈ segmentAttempts n segments) : ∃ source, a = .ofStream source := by
  induction segments generalizing n with
  | nil => cases h
  | cons segment rest ih =>
    unfold segmentAttempts at h
    split at h
    · exact ih _ h
    · rcases List.mem_cons.mp h with rfl | h
      · exact ⟨_, rfl⟩
      · exact ih _ h

theorem occursIn_of_segmentAttempts {a : Attempt} {r : Refusal} {n : Nat}
    {segments : List (List Char)} (h : a ∈ segmentAttempts n segments) (hr : a.refusal? = some r) :
    r.OccursIn a.source := by
  obtain ⟨source, rfl⟩ := segmentAttempts_ofStream n segments h
  exact Yaml.readStream_refusal (Attempt.refusal?_eq_some_iff.mp hr)

theorem occursIn_of_textAttempts {a : Attempt} {r : Refusal} {mode : Mode} {source : List Char}
    (h : a ∈ textAttempts mode source) (hr : a.refusal? = some r) : r.OccursIn a.source := by
  rcases List.mem_cons.mp h with rfl | h
  · have hwhole : readWhole mode.multiple source = .error (.refused r) :=
      Attempt.refusal?_eq_some_iff.mp hr
    unfold readWhole at hwhole
    split at hwhole
    · exact Yaml.readStream_refusal hwhole
    · exact Yaml.readSingle_refusal hwhole
  · split at h
    · exact occursIn_of_segmentAttempts h hr
    · cases h

/-- What refuses an attempt occurs in its text. -/
theorem occursIn_of_attempts {a : Attempt} {r : Refusal} {mode : Mode} {input : Input}
    (h : a ∈ input.attempts mode) (hr : a.refusal? = some r) : r.OccursIn a.source := by
  cases input with
  | text s => exact occursIn_of_textAttempts h hr
  | bytes bs =>
    unfold Input.attempts at h
    dsimp only at h
    split at h
    · exact occursIn_of_textAttempts h hr
    · split at h
      · exact occursIn_of_segmentAttempts h hr
      · cases h

/-- Whether an input holds a document is settled by strict reading. -/
theorem holdsDocument_settles (multiple : Bool) (input : Input) :
    Settles (refusalAmong (input.attempts { tolerant := false, multiple }))
      (holdsDocument multiple input) fun answer => ∃ b, answer = .ok b ∧ (b = true ↔
        ∃ documents, (parse { tolerant := false, multiple } input).result = .ok documents ∧
          documents ≠ []) := by
  have hparse := parse_settles { tolerant := false, multiple } input
  unfold holdsDocument
  cases hamong : refusalAmong (input.attempts { tolerant := false, multiple }) with
  | some r =>
    rw [hparse.refused r hamong]
    exact .of_refused
  | none =>
    rcases hparse.documented hamong with ⟨documents, hok⟩ | ⟨-, e, he, herror⟩
    · rw [hok]
      refine .of_documented ⟨!documents.isEmpty, rfl, ?_⟩
      cases documents <;> simp
    · rw [herror]
      refine .of_documented ⟨false, ?_, ?_⟩
      · cases e with
        | refused r => exact absurd he id
        | fault | encoding => rfl
      · simp

/-- Where the first document has a collection as a key, the text does not parse. -/
theorem readWhole_ne_ok_of_collectionKey {source : List Char} {root : Yaml.Read.Root}
    {t : Yaml.Reading}
    (hfirst : Yaml.Read.document? true (Yaml.Reading.start source) = .ok (some root, t))
    (hkey : t.graph.HasCollectionKey root.id) (multiple : Bool) (documents : List Tree) :
    readWhole multiple source ≠ .ok documents := by
  have hunfold (tree : Tree) : t.graph.unfold root.id ≠ .ok tree := fun h =>
    Yaml.Graph.not_hasCollectionKey_of_unfoldFrom h hkey
  intro h
  unfold readWhole at h
  split at h
  · unfold Yaml.readStream at h
    split at h
    · cases h
    unfold Yaml.Reading.trees at h
    obtain ⟨document, hdocument, h⟩ := bind_eq_ok h
    rw [hfirst] at hdocument
    cases hdocument
    obtain ⟨tree, htree, -⟩ := bind_eq_ok h
    exact hunfold tree htree
  · unfold Yaml.readSingle at h
    split at h
    · cases h
    unfold Yaml.Reading.onlyTree at h
    obtain ⟨document, hdocument, h⟩ := bind_eq_ok h
    rw [hfirst] at hdocument
    cases hdocument
    obtain ⟨place, -, h⟩ := bind_eq_ok h
    cases place with
    | some place => cases h
    | none =>
      obtain ⟨tree, htree, -⟩ := bind_eq_ok h
      exact hunfold tree htree

/-- **Reading ends as documented unless it is refused.** Strict reading ends with documents or an
error that is documented, tolerant reading and salvaging end with documents, and whether an input
holds a document has an answer: all this exactly if no text that is read on the way is refused.
A refused text has an escape beyond the last character, a version number with too many digits, or
a document with a collection as a key; and a text whose first document has such a key never
parses. Collections may be nested to any depth: that a stack of limited size is used up on the way
down is no outcome here. -/
theorem reading_ends_as_documented_unless_refused (mode : Mode) (input : Input) :
    Settles (refusalAmong (input.attempts mode)) (parse mode input).result
      (EndsAsDocumented mode) ∧
    (∀ source : List Char, Settles (refusalAmong (salvageAttempts source)) (salvage source).result
      fun result => ∃ documents, result = .ok documents) ∧
    Settles (refusalAmong (input.attempts { tolerant := false, multiple := mode.multiple }))
      (holdsDocument mode.multiple input) (fun answer => ∃ b, answer = .ok b ∧ (b = true ↔
        ∃ documents, (parse { tolerant := false, multiple := mode.multiple } input).result =
          .ok documents ∧ documents ≠ [])) ∧
    (∀ a ∈ input.attempts mode, ∀ r, a.refusal? = some r → r.OccursIn a.source) ∧
    ∀ (source : List Char) (root : Yaml.Read.Root) (t : Yaml.Reading),
      Yaml.Read.document? true (Yaml.Reading.start source) = .ok (some root, t) →
      t.graph.HasCollectionKey root.id →
      ∀ multiple documents, readWhole multiple source ≠ .ok documents := by
  have hsalvage (source : List Char) : Settles (refusalAmong (salvageAttempts source))
      (salvage source).result fun result => ∃ documents, result = .ok documents := by
    have hresult : (salvage source).result = salvaged (salvageAttempts source) :=
      salvageSegments_result _
    rw [hresult]
    exact salvaged_settles _
  exact ⟨parse_settles mode input, hsalvage, holdsDocument_settles mode.multiple input,
    fun a ha r hr => occursIn_of_attempts ha hr,
    fun source root t hfirst hkey => readWhole_ne_ok_of_collectionKey hfirst hkey⟩

/-- A sequence as a key is refused in tolerant reading too, and whether there is a document has no
answer. -/
theorem reading_refuses_sequence_key :
    (parse { tolerant := true } (.text "? [a]\n: 1\n")).result = .error (.refused .collectionKey) ∧
      holdsDocument true (.text "? [a]\n: 1\n") = .error (.refused .collectionKey) := by
  have htolerant : refusalAmong (Input.attempts { tolerant := true } (.text "? [a]\n: 1\n")) =
      some .collectionKey := by decide +kernel
  have hstrict : refusalAmong (Input.attempts { tolerant := false } (.text "? [a]\n: 1\n")) =
      some .collectionKey := by decide +kernel
  have hends :=
    reading_ends_as_documented_unless_refused { tolerant := true } (.text "? [a]\n: 1\n")
  exact ⟨hends.1.refused _ htolerant, hends.2.2.1.refused _ hstrict⟩

end Columnar.Document
