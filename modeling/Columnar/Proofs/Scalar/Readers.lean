import Columnar.Canonical
import Columnar.Proofs.Scalar.Form
import Columnar.Proofs.Value.Readable

/-!
# Readers and the types of texts

A text has the type of the value that a reader makes of it. At most one reader accepts a text, apart
from integers, which are read as doubles too; so the readers may be tried in any order, and the
filter in front of dates and times only saves work. Main statement: the type of a text says which
readers accept it, and its canonical form is made of what the reader of its type has read.
-/

namespace Columnar.Scalar

open Text

/-- The type of the value that the readers of one form read, if they accept the trimmed text. In a
number an integer is looked for first, for it has the narrower type. -/
def check : Form → List Char → Option ColumnType
  | .missing, cs => if isNullWord cs then some .null else none
  | .truth, cs => (booleanWord? cs).map fun _ => .boolean
  | .date, cs => (dateText? cs).map fun _ => .date
  | .timestamp, cs => (timestampText? cs).map fun _ => .timestamp
  | .time, cs => (timeText? cs).map fun _ => .time
  | .number, cs =>
    if (doubleWord? cs).isSome then some .double
    else (integerType? cs).or ((literalDouble? cs).map doubleType)

theorem literal_of_integerType? {cs : List Char} {t : ColumnType} (h : integerType? cs = some t) :
    ∃ l, Literal.ofChars? cs = some l := by
  obtain ⟨w, hw, -⟩ := Option.map_eq_some_iff.mp h
  obtain ⟨n, hn, -⟩ := Option.bind_eq_some_iff.mp hw
  obtain ⟨negative, c, hl, -⟩ := ofChars?_of_integerLiteral? (integerLiteral?_of_exactInteger? hn)
  exact ⟨_, hl⟩

theorem literal_of_literalDouble? {cs : List Char} {d : Double} (h : literalDouble? cs = some d) :
    ∃ l, Literal.ofChars? cs = some l := by
  obtain ⟨l, hl, -⟩ := Option.map_eq_some_iff.mp h
  exact ⟨l, hl⟩

/-- Readers accept texts of their own form only. -/
theorem formOf_of_check {f : Form} {cs : List Char} {t : ColumnType} (h : check f cs = some t) :
    formOf cs = f := by
  cases f with
  | missing =>
    refine formOf_of_isNullWord ?_
    simpa using (Option.ite_none_right_eq_some.mp h).1
  | truth =>
    obtain ⟨b, hb, -⟩ := Option.map_eq_some_iff.mp h
    exact formOf_of_booleanWord? hb
  | date =>
    obtain ⟨d, hd, -⟩ := Option.map_eq_some_iff.mp h
    obtain ⟨parts, hparts⟩ := takeDateParts_of_dateText? hd
    rw [formOf_of_takeDateParts hparts, if_pos rfl]
  | timestamp =>
    obtain ⟨d, hd, -⟩ := Option.map_eq_some_iff.mp h
    obtain ⟨parts, rest, hparts, hrest⟩ := takeDateParts_of_timestampText? hd
    rw [formOf_of_takeDateParts hparts, if_neg hrest]
  | time =>
    obtain ⟨d, hd, -⟩ := Option.map_eq_some_iff.mp h
    exact formOf_of_timeText? hd
  | number =>
    rw [check] at h
    split at h
    · obtain ⟨d, hd⟩ := Option.isSome_iff_exists.mp ‹_›
      exact formOf_of_doubleWord? hd
    · have hliteral : ∃ l, Literal.ofChars? cs = some l := by
        rcases Option.or_eq_some_iff.mp h with h | ⟨-, h⟩
        · exact literal_of_integerType? h
        · obtain ⟨d, hd, -⟩ := Option.map_eq_some_iff.mp h
          exact literal_of_literalDouble? hd
      obtain ⟨l, hl⟩ := hliteral
      exact formOf_of_ofChars? hl

/-- The forms may be tried in any order: only the text's own can accept. -/
theorem findSome?_check {order : List Form} (h : ∀ f, f ∈ order) (cs : List Char) :
    order.findSome? (fun f => check f cs) = check (formOf cs) cs := by
  cases hfound : order.findSome? (fun f => check f cs) with
  | none => exact (List.findSome?_eq_none_iff.mp hfound _ (h _)).symm
  | some t =>
    obtain ⟨f, -, hf⟩ := List.exists_of_findSome?_eq_some hfound
    rw [formOf_of_check hf, hf]

/-! ## The filter in front of dates and times -/

theorem looksTemporal_of_ledBy {c : Char} {cs : List Char} (h : LedBy c cs)
    (hc : c = '-' ∨ c = ':') : looksTemporal cs = true := by
  have hdrop := h.mem_drop
  have hmem : c ∈ cs := List.mem_of_mem_drop hdrop
  unfold looksTemporal
  simp only [Bool.or_eq_true, List.contains_iff_mem]
  rcases hc with rfl | rfl
  · exact Or.inr hdrop
  · exact Or.inl (Or.inl hmem)

/-- The filter keeps nothing from the readers of dates and times that they would accept. -/
theorem temporalType?_eq (cs : List Char) :
    temporalType? cs = [Form.date, .timestamp, .time].findSome? fun f => check f cs := by
  have hdate (d : Date) (h : dateText? cs = some d) : looksTemporal cs = true := by
    obtain ⟨parts, hparts⟩ := takeDateParts_of_dateText? h
    exact looksTemporal_of_ledBy (ledBy_of_takeDateParts hparts) (Or.inl rfl)
  have htimestamp (t : Timestamp) (h : timestampText? cs = some t) : looksTemporal cs = true := by
    obtain ⟨parts, rest, hparts, -⟩ := takeDateParts_of_timestampText? h
    exact looksTemporal_of_ledBy (ledBy_of_takeDateParts hparts) (Or.inl rfl)
  have htime (t : TimeOfDay) (h : timeText? cs = some t) : looksTemporal cs = true := by
    obtain ⟨parts, hparts⟩ := takeTimeParts_of_timeText? h
    exact looksTemporal_of_ledBy (ledBy_of_takeTimeParts hparts) (Or.inr rfl)
  unfold temporalType?
  simp only [List.findSome?_cons, List.findSome?_nil, check]
  cases hd : dateText? cs with
  | some d => simp [hdate d hd]
  | none =>
    cases hs : timestampText? cs with
    | some t => simp [htimestamp t hs]
    | none =>
      cases ht : timeText? cs with
      | some t => simp [htime t ht]
      | none => simp

/-- The type of a text is what the readers of its form read, and a string if they do not accept. -/
theorem classify_eq (text : String) :
    classify text = (check (formOf (core text)) (core text)).getD .string := by
  have horder : ∀ f, f ∈ [Form.missing, .truth] ++ [.date, .timestamp, .time] ++ [.number] := by
    intro f
    cases f <;> decide
  rw [← findSome?_check horder, List.findSome?_append, List.findSome?_append, ← temporalType?_eq]
  unfold classify
  simp only [List.findSome?_cons, List.findSome?_nil, check]
  cases isNullWord (core text) with
  | true => simp
  | false =>
    cases booleanWord? (core text) with
    | some b => simp
    | none =>
      cases temporalType? (core text) with
      | some t => simp
      | none =>
        cases doubleWord? (core text) with
        | some d => simp
        | none =>
          cases integerType? (core text) with
          | some t => simp
          | none => cases literalDouble? (core text) <;> simp

/-! ## Which readers accept -/

/-- The form of the texts that have a type. No text is a string for its form. -/
def formOfType : ColumnType → Option Form
  | .null => some .missing
  | .boolean => some .truth
  | .date => some .date
  | .timestamp => some .timestamp
  | .time => some .time
  | .integer _ | .double => some .number
  | _ => none

theorem formOfType_doubleType (d : Double) : formOfType (doubleType d) = some .number := by
  unfold doubleType
  split
  · split <;> rfl
  · rfl

theorem formOfType_of_check {f : Form} {cs : List Char} {t : ColumnType}
    (h : check f cs = some t) : formOfType t = some f := by
  cases f with
  | missing =>
    obtain ⟨-, rfl⟩ : _ ∧ ColumnType.null = t := by simpa [check] using h
    rfl
  | truth | date | timestamp | time =>
    obtain ⟨_, -, rfl⟩ := Option.map_eq_some_iff.mp h
    rfl
  | number =>
    rw [check] at h
    split at h
    · obtain rfl := Option.some.inj h
      rfl
    · rcases Option.or_eq_some_iff.mp h with h | ⟨-, h⟩
      · obtain ⟨w, -, rfl⟩ := Option.map_eq_some_iff.mp h
        rfl
      · obtain ⟨d, -, rfl⟩ := Option.map_eq_some_iff.mp h
        exact formOfType_doubleType d

/-- A text has a type of a form exactly if the readers of that form accept it. -/
theorem formOfType_classify_iff {f : Form} {text : String} :
    formOfType (classify text) = some f ↔ (check f (core text)).isSome = true := by
  rw [classify_eq]
  constructor
  · intro h
    cases hcheck : check (formOf (core text)) (core text) with
    | none =>
      rw [hcheck] at h
      cases h
    | some t =>
      rw [hcheck, Option.getD_some, formOfType_of_check hcheck] at h
      rw [← Option.some.inj h, hcheck]
      rfl
  · intro h
    obtain ⟨t, ht⟩ := Option.isSome_iff_exists.mp h
    rw [formOf_of_check ht, ht, Option.getD_some]
    exact formOfType_of_check ht

theorem isSome_check_number (text : String) :
    (check .number (core text)).isSome = (double? text).isSome := by
  rw [check, double?]
  cases doubleWord? (core text) with
  | some d => rfl
  | none =>
    cases ht : integerType? (core text) with
    | none => simp
    | some t =>
      obtain ⟨l, hl⟩ := literal_of_integerType? ht
      simp [literalDouble?, hl]

theorem classify_eq_boolean_iff {text : String} :
    classify text = .boolean ↔ (boolean? text).isSome = true := by
  have hform : classify text = .boolean ↔ formOfType (classify text) = some .truth := by
    cases classify text <;> simp [formOfType]
  rw [hform, formOfType_classify_iff, check, Option.isSome_map]
  rfl

theorem classify_eq_date_iff {text : String} :
    classify text = .date ↔ (date? text).isSome = true := by
  have hform : classify text = .date ↔ formOfType (classify text) = some .date := by
    cases classify text <;> simp [formOfType]
  rw [hform, formOfType_classify_iff, check, Option.isSome_map]
  rfl

theorem classify_eq_timestamp_iff {text : String} :
    classify text = .timestamp ↔ (timestamp? text).isSome = true := by
  have hform : classify text = .timestamp ↔ formOfType (classify text) = some .timestamp := by
    cases classify text <;> simp [formOfType]
  rw [hform, formOfType_classify_iff, check, Option.isSome_map]
  rfl

theorem classify_eq_time_iff {text : String} :
    classify text = .time ↔ (time? text).isSome = true := by
  have hform : classify text = .time ↔ formOfType (classify text) = some .time := by
    cases classify text <;> simp [formOfType]
  rw [hform, formOfType_classify_iff, check, Option.isSome_map]
  rfl

theorem isNumeric_classify_iff {text : String} :
    (classify text).isNumeric = true ↔ (double? text).isSome = true := by
  have hform : (classify text).isNumeric = true ↔
      formOfType (classify text) = some .number := by
    cases classify text <;> simp [formOfType, ColumnType.isNumeric]
  rw [hform, formOfType_classify_iff, isSome_check_number]

theorem exists_integer?_of_classify {text : String} {w : Width}
    (h : classify text = .integer w) : ∃ n, integer? text = some n := by
  rcases integer?_of_classify h with ⟨n, hn, -⟩ | hover
  · exact ⟨n, hn⟩
  · obtain ⟨n, hn, -⟩ := hover.integer?
    exact ⟨n, hn⟩

theorem isSome_double?_of_integer? {text : String} (h : (integer? text).isSome = true) :
    (double? text).isSome = true := by
  obtain ⟨n, hn⟩ := Option.isSome_iff_exists.mp h
  have hread := Value.readable_double_of_integer? hn
  unfold Value.readable at hread
  exact hread

/-- Of the readers at most one accepts a text, that of integers apart. -/
theorem count_accepting_le_one (text : String) :
    [(boolean? text).isSome, (date? text).isSome, (timestamp? text).isSome, (time? text).isSome,
      (double? text).isSome].count true ≤ 1 := by
  let readers := [Form.truth, .date, .timestamp, .time, .number]
  have hboolean : (check .truth (core text)).isSome = (boolean? text).isSome := by
    rw [check, Option.isSome_map, boolean?]
  have hdate : (check .date (core text)).isSome = (date? text).isSome := by
    rw [check, Option.isSome_map, date?]
  have htimestamp : (check .timestamp (core text)).isSome = (timestamp? text).isSome := by
    rw [check, Option.isSome_map, timestamp?]
  have htime : (check .time (core text)).isSome = (time? text).isSome := by
    rw [check, Option.isSome_map, time?]
  have hlist : [(boolean? text).isSome, (date? text).isSome, (timestamp? text).isSome,
      (time? text).isSome, (double? text).isSome] =
        readers.map fun f => (check f (core text)).isSome := by
    rw [← hboolean, ← hdate, ← htimestamp, ← htime, ← isSome_check_number]
    rfl
  have hform : ∀ f ∈ readers, (check f (core text)).isSome = true →
      (f == formOf (core text)) = true := by
    intro f _ h
    obtain ⟨t, ht⟩ := Option.isSome_iff_exists.mp h
    rw [formOf_of_check ht]
    exact beq_self_eq_true f
  have hcount : readers.countP (fun f => (check f (core text)).isSome) ≤
      readers.count (formOf (core text)) := List.countP_mono_left hform
  have hone : readers.count (formOf (core text)) ≤ 1 := by
    cases formOf (core text) <;> decide
  have hmap : (readers.map fun f => (check f (core text)).isSome).count true =
      readers.countP fun f => (check f (core text)).isSome := by
    have htrue : ((· == true) ∘ fun f => (check f (core text)).isSome) =
        fun f => (check f (core text)).isSome := funext fun f => beq_true _
    rw [List.count, List.countP_map, htrue]
  rw [hlist, hmap]
  omega

/-- Where no reader accepts, the text stands for no value or is a string. -/
theorem classify_of_not_accepted {text : String} (hboolean : boolean? text = none)
    (hdate : date? text = none) (htimestamp : timestamp? text = none) (htime : time? text = none)
    (hdouble : double? text = none) :
    classify text =
      if core text = [] ∨ core text = ['~'] ∨ lower (core text) = "null".toList then .null
      else .string := by
  have hnone (f : Form) (h : f ≠ .missing) : check f (core text) = none := by
    cases f with
    | missing => exact absurd rfl h
    | truth =>
      rw [boolean?] at hboolean
      rw [check, hboolean, Option.map_none]
    | date =>
      rw [date?] at hdate
      rw [check, hdate, Option.map_none]
    | timestamp =>
      rw [timestamp?] at htimestamp
      rw [check, htimestamp, Option.map_none]
    | time =>
      rw [time?] at htime
      rw [check, htime, Option.map_none]
    | number =>
      have hsome := isSome_check_number text
      rw [hdouble] at hsome
      exact Option.not_isSome_iff_eq_none.mp (by simp [hsome])
  have hword : isNullWord (core text) = true ↔
      core text = [] ∨ core text = ['~'] ∨ lower (core text) = "null".toList := by
    simp [isNullWord, or_assoc]
  rw [classify_eq]
  by_cases hnull : isNullWord (core text) = true
  · rw [formOf_of_isNullWord hnull, check, if_pos hnull, if_pos (hword.mp hnull), Option.getD_some]
  · have hmissing : check .missing (core text) = none := if_neg hnull
    have hall : check (formOf (core text)) (core text) = none := by
      by_cases hform : formOf (core text) = .missing
      · rw [hform, hmissing]
      · exact hnone _ hform
    rw [hall, if_neg (mt hword.mpr hnull), Option.getD_none]

/-! ## Canonical forms -/

/-- The canonical form of a text of a type: what the reader of the type has read. Only a string is
kept as it is. -/
inductive Rendered (text : String) : ColumnType → Json → Prop
  | null : Rendered text .null .null
  | boolean {b} : boolean? text = some b → Rendered text .boolean (.boolean b)
  | integer {w n} : integer? text = some n → Rendered text (.integer w) (.integer n)
  | double {d} : double? text = some d → Rendered text .double d.toJson
  | date {d} : date? text = some d → Rendered text .date (.string (String.ofList d.text))
  | time {t} : time? text = some t → Rendered text .time (.string (String.ofList t.text))
  | timestamp {t} : timestamp? text = some t →
      Rendered text .timestamp (.string (String.ofList t.text))
  | string : Rendered text .string (.string text)

theorem rendered (text : String) : Rendered text (classify text) (toJson text) := by
  have hclassified := classified text
  unfold toJson
  cases ht : classify text with
  | null => exact .null
  | string => exact .string
  | boolean =>
    obtain ⟨b, hb⟩ := Option.isSome_iff_exists.mp (classify_eq_boolean_iff.mp ht)
    simpa only [readAs, hb] using .boolean hb
  | date =>
    obtain ⟨d, hd⟩ := Option.isSome_iff_exists.mp (classify_eq_date_iff.mp ht)
    simpa only [readAs, hd] using .date hd
  | timestamp =>
    obtain ⟨t, hread⟩ := Option.isSome_iff_exists.mp (classify_eq_timestamp_iff.mp ht)
    simpa only [readAs, hread] using .timestamp hread
  | time =>
    obtain ⟨t, hread⟩ := Option.isSome_iff_exists.mp (classify_eq_time_iff.mp ht)
    simpa only [readAs, hread] using .time hread
  | integer w =>
    obtain ⟨n, hn⟩ := exists_integer?_of_classify ht
    simpa only [readAs, hn] using .integer hn
  | double =>
    have hnumeric : (classify text).isNumeric = true := by rw [ht]; rfl
    obtain ⟨d, hd⟩ := Option.isSome_iff_exists.mp (isNumeric_classify_iff.mp hnumeric)
    simpa only [readAs, hd] using .double hd
  | list | struct | any =>
    rw [ht] at hclassified
    cases hclassified

/-- **A text has the type of the reader that accepts it.** At most one of the readers accepts, and
what is an integer is a double too. A text is of one of their types exactly if the reader of that
type accepts; a text that none accepts stands for no value if it is empty, `~` or `null`, and is a
string otherwise. The checks may be made in any order, without the filter in front of the dates and
times, and the canonical form of a text is always what the reader of its type has read. -/
theorem classify_agrees_with_readers (text : String) :
    ([(boolean? text).isSome, (date? text).isSome, (timestamp? text).isSome, (time? text).isSome,
        (double? text).isSome].count true ≤ 1 ∧
      ((integer? text).isSome = true → (double? text).isSome = true)) ∧
    ((classify text = .boolean ↔ (boolean? text).isSome = true) ∧
      (classify text = .date ↔ (date? text).isSome = true) ∧
      (classify text = .timestamp ↔ (timestamp? text).isSome = true) ∧
      (classify text = .time ↔ (time? text).isSome = true) ∧
      (((∃ w, classify text = .integer w) ∨ classify text = .double) ↔
        (double? text).isSome = true) ∧
      (∀ w, classify text = .integer w → (integer? text).isSome = true)) ∧
    (boolean? text = none → date? text = none → timestamp? text = none → time? text = none →
      double? text = none → classify text =
        if core text = [] ∨ core text = ['~'] ∨ lower (core text) = "null".toList then .null
        else .string) ∧
    (∀ order : List Form, (∀ f, f ∈ order) →
      (order.findSome? fun f => check f (core text)).getD .string = classify text) ∧
    temporalType? (core text) =
      [Form.date, .timestamp, .time].findSome? (fun f => check f (core text)) ∧
    Rendered text (classify text) (toJson text) := by
  have hnumeric : ((∃ w, classify text = .integer w) ∨ classify text = .double) ↔
      (classify text).isNumeric = true := by
    cases classify text <;> simp [ColumnType.isNumeric]
  have hinteger (w : Width) (h : classify text = .integer w) : (integer? text).isSome = true := by
    obtain ⟨n, hn⟩ := exists_integer?_of_classify h
    exact Option.isSome_of_eq_some hn
  have horder (order : List Form) (h : ∀ f, f ∈ order) :
      (order.findSome? fun f => check f (core text)).getD .string = classify text := by
    rw [findSome?_check h, classify_eq]
  exact ⟨⟨count_accepting_le_one text, isSome_double?_of_integer?⟩,
    ⟨classify_eq_boolean_iff, classify_eq_date_iff, classify_eq_timestamp_iff,
      classify_eq_time_iff, hnumeric.trans isNumeric_classify_iff, hinteger⟩,
    classify_of_not_accepted, horder, temporalType?_eq _, rendered text⟩

/-- Checked in the opposite order, a timestamp that lies a day earlier in universal time is found
all the same, and `Null` with a blank behind it is no reader's. -/
theorem classify_agrees_with_readers_reversed :
    ([Form.number, .time, .timestamp, .date, .truth, .missing].findSome? fun f =>
        check f (core "2024-03-01T00:15+14:30")).getD .string =
      classify "2024-03-01T00:15+14:30" ∧
    classify "Null " =
      if core "Null " = [] ∨ core "Null " = ['~'] ∨ lower (core "Null ") = "null".toList then .null
      else .string := by
  have horder : ∀ f, f ∈ [Form.number, .time, .timestamp, .date, .truth, .missing] := by
    intro f
    cases f <;> decide
  exact ⟨(classify_agrees_with_readers _).2.2.2.1 _ horder,
    (classify_agrees_with_readers _).2.2.1 rfl rfl rfl rfl rfl⟩

end Columnar.Scalar
