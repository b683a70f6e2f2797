import Columnar.Proofs.Number.Notation
import Columnar.Proofs.Scalar.Readers
import Columnar.Proofs.Time.Notation

/-!
# Canonical scalars

The canonical form of a scalar is written without blanks, and the reader of its type reads back what
was written: an integer of 64 bits or next below them, a double that is no such integer, a date, a
time, a timestamp. So the written form has the type of the scalar again, integers of any width
counting as one type, and its canonical form is the same.
-/

namespace Columnar.Scalar

open Text

theorem core_ofList {cs : List Char} (h : ∀ c ∈ cs, isBlank c = false) :
    core (String.ofList cs) = cs := by
  rw [core, String.toList_ofList, trim_eq_self h]

/-! ## Numbers -/

/-- The integers that a text may be typed for. -/
def Typable (n : Int) : Prop := -Width.w64.half - 1024 ≤ n ∧ n < Width.w64.half

theorem Typable.of_holds {w : Width} {n : Int} (h : w.Holds n) : Typable n := by
  obtain ⟨hlow, hhigh⟩ := h.of_bits_le (w := .w64) (by cases w <;> decide)
  exact ⟨by omega, hhigh⟩

theorem typable_of_classify {text : String} {w : Width} (h : classify text = .integer w) :
    ∃ n, integer? text = some n ∧ Typable n := by
  rcases integer?_of_classify h with ⟨n, hn, hholds⟩ | hover
  · exact ⟨n, hn, .of_holds hholds⟩
  · obtain ⟨n, hn, hlow, hhigh⟩ := hover
    have hhalf : 0 < Width.w64.half := by decide
    refine ⟨n, ?_, hlow, by omega⟩
    rw [integer?, hn]

/-- The text of an integer that a text may be typed for is short. -/
theorem exactInteger?_integerText {n : Int} (h : Typable n) :
    exactInteger? (core (String.ofList (integerText n))) = some n := by
  have hcore : core (String.ofList (integerText n)) = integerText n :=
    core_ofList fun c hc => isBlank_of_isNumeral (isNumeral_integerText n c hc)
  have hhalf : Width.w64.half = 9223372036854775808 := rfl
  have hlength : (integerText n).length ≤ integerLengthLimit := by
    refine length_integerText_le (k := 19) (by decide) ?_
    obtain ⟨hlow, hhigh⟩ := h
    omega
  rw [hcore, exactInteger?, if_pos hlength, integerLiteral?_integerText]

/-- An integer is written with the type of its smallest width. -/
theorem classify_integerText {n : Int} {w : Width} (h : Width.ofInt? n = some w) :
    classify (String.ofList (integerText n)) = .integer w := by
  have hexact := exactInteger?_integerText (.of_holds (Width.holds_of_ofInt? h))
  have hliteral := integerLiteral?_of_exactInteger? hexact
  obtain ⟨negative, c, hchars, -⟩ := ofChars?_of_integerLiteral? hliteral
  obtain ⟨-, -, hword⟩ := keyword_integerLiteral? hliteral
  rw [classify_eq, formOf_of_ofChars? hchars, check, hword, integerType?, hexact,
    Option.bind_some, h]
  rfl

/-- An integer that is written has the type of an integer and is read back. -/
theorem integer_written {n : Int} (h : Typable n) :
    (∃ w, classify (String.ofList (integerText n)) = .integer w) ∧
      integer? (String.ofList (integerText n)) = some n := by
  have hexact := exactInteger?_integerText h
  refine ⟨?_, by rw [integer?, hexact]⟩
  by_cases hholds : Width.w64.Holds n
  · obtain ⟨w, hw, -⟩ := Width.exists_ofInt? hholds
    exact ⟨w, classify_integerText hw⟩
  · refine ⟨.w64, Overflowing.classify ⟨n, hexact, h.1, ?_⟩⟩
    have hhigh := h.2
    have hrange : ¬(-Width.w64.half ≤ n ∧ n < Width.w64.half) := hholds
    omega

theorem doubleWord?_of_ofChars? {cs : List Char} {l : Literal} (h : Literal.ofChars? cs = some l) :
    doubleWord? cs = none := by
  cases hword : doubleWord? cs with
  | none => rfl
  | some d =>
    have hmem := doubleWord?_isSome_iff.mp (Option.isSome_of_eq_some hword)
    have hwords : ∀ w ∈ doubleWords.map Prod.fst, w.toList.any isDigit = false := by decide
    have hdigit := any_isDigit_of_lower rfl (hwords _ hmem)
    rw [any_isDigit_of_ofChars? h] at hdigit
    cases hdigit

/-- The double of a text with the type of a double is no integer of 64 bits. -/
theorem double?_of_classify {text : String} (h : classify text = .double) :
    ∃ d, double? text = some d ∧ doubleType d = .double := by
  have hform : formOf (core text) = .number := by
    have htype : formOfType (classify text) = some .number := by rw [h]; rfl
    obtain ⟨t, ht⟩ := Option.isSome_iff_exists.mp (formOfType_classify_iff.mp htype)
    exact formOf_of_check ht
  rw [classify_eq, hform, check] at h
  cases hword : doubleWord? (core text) with
  | some d =>
    have hwords : ∀ e ∈ doubleWords, doubleType e.2 = .double := by
      simp [doubleWords, doubleType, Double.toInt?]
    obtain ⟨l₁, l₂, heq, -⟩ := List.lookup_eq_some_iff.mp hword
    refine ⟨d, by rw [double?, hword], hwords (String.ofList (lower (core text)), d) ?_⟩
    rw [heq]
    exact List.mem_append_right _ List.mem_cons_self
  | none =>
    rw [hword] at h
    cases hinteger : integerType? (core text) with
    | some t =>
      obtain ⟨w, -, rfl⟩ := Option.map_eq_some_iff.mp hinteger
      rw [hinteger] at h
      cases h
    | none =>
      cases hdouble : literalDouble? (core text) with
      | none =>
        rw [hinteger, hdouble] at h
        cases h
      | some d =>
        rw [hinteger, hdouble] at h
        exact ⟨d, by rw [double?, hword, hdouble], h⟩

/-- A finite double that is written has the type it had and is read back. -/
theorem double_written (negative : Bool) (m : Magnitude) :
    classify (String.ofList (Double.text (.finite negative m))) =
        doubleType (.finite negative m) ∧
      double? (String.ofList (Double.text (.finite negative m))) =
        some (.finite negative m) := by
  have hcore : core (String.ofList (Double.text (.finite negative m))) =
      Double.text (.finite negative m) :=
    core_ofList fun c hc => isBlank_of_isNumeral ((text_finite negative m).2.1 c hc)
  have hdouble := literalDouble?_text negative m
  obtain ⟨l, hliteral⟩ := literal_of_literalDouble? hdouble
  have hword := doubleWord?_of_ofChars? hliteral
  have hinteger : integerType? (Double.text (.finite negative m)) = none := by
    unfold integerType? exactInteger?
    rw [integerLiteral?_text, ite_self, Option.bind_none, Option.map_none]
  constructor
  · rw [classify_eq, hcore, formOf_of_ofChars? hliteral, check, hword, hinteger, hdouble]
    rfl
  · rw [double?, hcore, hword, hdouble]

/-! ## Dates and times -/

theorem date_written (d : Date) :
    classify (String.ofList d.text) = .date ∧ date? (String.ofList d.text) = some d := by
  have hread : date? (String.ofList d.text) = some d := by
    rw [date?, core_ofList d.isBlank_text, dateText?_text]
  exact ⟨classify_eq_date_iff.mpr (Option.isSome_of_eq_some hread), hread⟩

theorem time_written (t : TimeOfDay) :
    classify (String.ofList t.text) = .time ∧ time? (String.ofList t.text) = some t := by
  have hread : time? (String.ofList t.text) = some t := by
    rw [time?, core_ofList t.isBlank_text, timeText?_text]
  exact ⟨classify_eq_time_iff.mpr (Option.isSome_of_eq_some hread), hread⟩

theorem timestamp_written (t : Timestamp) :
    classify (String.ofList t.text) = .timestamp ∧
      timestamp? (String.ofList t.text) = some t := by
  have hread : timestamp? (String.ofList t.text) = some t := by
    rw [timestamp?, core_ofList t.isBlank_text, timestampText?_text]
  exact ⟨classify_eq_timestamp_iff.mpr (Option.isSome_of_eq_some hread), hread⟩

end Columnar.Scalar
