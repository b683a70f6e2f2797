import Columnar.Proofs.Scalar.Overflow
import Columnar.Proofs.Time.Grammar

/-!
# The forms of scalars

The text of a value shows by its first characters what kind of value it can be. A keyword has no
digit, and every other value has one. Dates and timestamps begin with digits and a hyphen, times
with digits and a colon; a number begins with a sign, a point, or digits behind which neither
stands. `formOf` reads off this form. Main statement: a reader accepts texts of its own form only.
-/

namespace Columnar.Scalar

open Text

/-- The kinds of value that the reading of a scalar tells apart. -/
inductive Form
  | missing
  | truth
  | date
  | timestamp
  | time
  | number
deriving DecidableEq

/-- The only kind of value that a trimmed text may be. -/
def formOf (cs : List Char) : Form :=
  if cs.any isDigit then
    if cs.head?.any isDigit then
      match cs.dropWhile isDigit with
      | '-' :: _ => if (takeDateParts cs).map Prod.snd = some [] then .date else .timestamp
      | ':' :: _ => .time
      | _ => .number
    else .number
  else if isNullWord cs then .missing
  else if (booleanWord? cs).isSome then .truth
  else .number

/-! ## Keywords -/

theorem any_isDigit_of_lower {cs : List Char} {word : String}
    (h : String.ofList (lower cs) = word) (hword : word.toList.any isDigit = false) :
    cs.any isDigit = false := by
  have hlower : lower cs = word.toList := by rw [← h, String.toList_ofList]
  refine List.any_eq_false.mpr fun c hc hdigit => ?_
  have hmem : c.toLower ∈ lower cs := List.mem_map_of_mem hc
  rw [toLower_of_isDigit hdigit, hlower] at hmem
  exact List.any_eq_false.mp hword c hmem hdigit

theorem booleanWord?_isSome_iff {cs : List Char} :
    (booleanWord? cs).isSome = true ↔ String.ofList (lower cs) ∈ trueWords ++ falseWords := by
  unfold booleanWord?
  dsimp only
  rw [List.mem_append]
  split
  · simp [*]
  · split <;> simp [*]

theorem doubleWord?_isSome_iff {cs : List Char} :
    (doubleWord? cs).isSome = true ↔ String.ofList (lower cs) ∈ doubleWords.map Prod.fst := by
  rw [doubleWord?, List.lookup_isSome_iff, List.mem_map]
  constructor
  · rintro ⟨e, he, heq⟩
    exact ⟨e, he, (beq_iff_eq.mp heq).symm⟩
  · rintro ⟨e, he, heq⟩
    exact ⟨e, he, beq_iff_eq.mpr heq.symm⟩

theorem formOf_of_isNullWord {cs : List Char} (h : isNullWord cs = true) :
    formOf cs = .missing := by
  have hdigit : cs.any isDigit = false := by
    simp only [isNullWord, Bool.or_eq_true, decide_eq_true_eq] at h
    rcases h with (rfl | rfl) | h
    · rfl
    · rfl
    · have hword : String.ofList (lower cs) = "null" := by rw [h]
      exact any_isDigit_of_lower hword (by decide)
  rw [formOf, hdigit, h]
  rfl

/-- The texts that stand for no value, in lower case. -/
theorem lower_of_isNullWord {cs : List Char} (h : isNullWord cs = true) :
    String.ofList (lower cs) ∈ ["", "~", "null"] := by
  simp only [isNullWord, Bool.or_eq_true, decide_eq_true_eq] at h
  rcases h with (rfl | rfl) | h
  · decide
  · decide
  · rw [h]
    decide

theorem formOf_of_booleanWord? {cs : List Char} {b : Bool} (h : booleanWord? cs = some b) :
    formOf cs = .truth := by
  have hsome : (booleanWord? cs).isSome = true := Option.isSome_of_eq_some h
  have hmem := booleanWord?_isSome_iff.mp hsome
  have hwords : ∀ w ∈ trueWords ++ falseWords,
      w.toList.any isDigit = false ∧ w ∉ ["", "~", "null"] := by decide
  obtain ⟨hplain, hvalue⟩ := hwords _ hmem
  have hdigit : cs.any isDigit = false := any_isDigit_of_lower rfl hplain
  have hnull : isNullWord cs = false := by
    cases hnull : isNullWord cs with
    | false => rfl
    | true => exact absurd (lower_of_isNullWord hnull) hvalue
  rw [formOf, hdigit, hnull, hsome]
  rfl

theorem formOf_of_doubleWord? {cs : List Char} {d : Double} (h : doubleWord? cs = some d) :
    formOf cs = .number := by
  have hmem := doubleWord?_isSome_iff.mp (Option.isSome_of_eq_some h)
  have hwords : ∀ w ∈ doubleWords.map Prod.fst, w.toList.any isDigit = false ∧
      w ∉ ["", "~", "null"] ∧ w ∉ trueWords ++ falseWords := by decide
  obtain ⟨hplain, hvalue, htruth⟩ := hwords _ hmem
  have hdigit : cs.any isDigit = false := any_isDigit_of_lower rfl hplain
  have hnull : isNullWord cs = false := by
    cases hnull : isNullWord cs with
    | false => rfl
    | true => exact absurd (lower_of_isNullWord hnull) hvalue
  have hboolean : (booleanWord? cs).isSome = false := by
    cases hboolean : (booleanWord? cs).isSome with
    | false => rfl
    | true => exact absurd (booleanWord?_isSome_iff.mp hboolean) htruth
  rw [formOf, hdigit, hnull, hboolean]
  rfl

/-! ## Digits with a character behind them -/

/-- The text begins with digits, at least one, and the character behind them. -/
def LedBy (c : Char) (cs : List Char) : Prop :=
  ∃ ds rest, cs = ds ++ c :: rest ∧ ds ≠ [] ∧ ∀ d ∈ ds, isDigit d = true

theorem LedBy.any_isDigit {c : Char} {cs : List Char} (h : LedBy c cs) :
    cs.any isDigit = true ∧ cs.head?.any isDigit = true := by
  obtain ⟨ds, rest, rfl, hne, hds⟩ := h
  cases ds with
  | nil => exact absurd rfl hne
  | cons d ds =>
    have hd : isDigit d = true := hds d List.mem_cons_self
    simp [hd]

theorem LedBy.dropWhile {c : Char} {cs : List Char} (h : LedBy c cs) (hc : isDigit c = false) :
    ∃ rest, cs.dropWhile isDigit = c :: rest := by
  obtain ⟨ds, rest, rfl, -, hds⟩ := h
  refine ⟨rest, ?_⟩
  rw [List.dropWhile_append_of_pos hds, List.dropWhile_cons_of_neg (by rw [hc]; decide)]

theorem LedBy.mem_drop {c : Char} {cs : List Char} (h : LedBy c cs) : c ∈ cs.drop 1 := by
  obtain ⟨ds, rest, rfl, hne, -⟩ := h
  cases ds with
  | nil => exact absurd rfl hne
  | cons d ds => simp

theorem ledBy_of_takeNumber {low high n : Nat} {c : Char} {cs rest rest' : List Char}
    (hlow : 0 < low) (h : takeNumber low high cs = some (n, rest))
    (hc : takeChar c rest = some rest') : LedBy c cs := by
  obtain ⟨ds, rfl, hds⟩ := spells_of_takeNumber h
  refine ⟨ds, rest', ?_, ?_, hds.digits⟩
  · rw [takeChar_eq_some_iff.mp hc]
  · exact List.length_pos_iff.mp (Nat.lt_of_lt_of_le hlow hds.low_le)

theorem ledBy_of_takeDateParts {cs rest : List Char} {parts : Nat × Nat × Nat}
    (h : takeDateParts cs = some (parts, rest)) : LedBy '-' cs := by
  unfold takeDateParts at h
  obtain ⟨⟨year, behind⟩, hyear, h⟩ := Option.bind_eq_some_iff.mp h
  obtain ⟨behind', hhyphen, -⟩ := Option.bind_eq_some_iff.mp h
  exact ledBy_of_takeNumber (by decide) hyear hhyphen

theorem ledBy_of_takeTimeParts {cs rest : List Char} {parts : Nat × Nat × Nat × Nat}
    (h : takeTimeParts cs = some (parts, rest)) : LedBy ':' cs := by
  unfold takeTimeParts at h
  obtain ⟨⟨hour, behind⟩, hhour, h⟩ := Option.bind_eq_some_iff.mp h
  obtain ⟨behind', hcolon, -⟩ := Option.bind_eq_some_iff.mp h
  exact ledBy_of_takeNumber (by decide) hhour hcolon

/-! ## Dates and times -/

theorem takeDateParts_of_dateText? {cs : List Char} {d : Date} (h : dateText? cs = some d) :
    ∃ parts, takeDateParts cs = some (parts, []) := by
  unfold dateText? at h
  split at h
  · exact ⟨_, ‹_›⟩
  · cases h

/-- Behind the date of a timestamp something follows. -/
theorem takeDateParts_of_timestampText? {cs : List Char} {t : Timestamp}
    (h : timestampText? cs = some t) :
    ∃ parts rest, takeDateParts cs = some (parts, rest) ∧ rest ≠ [] := by
  unfold timestampText? at h
  obtain ⟨parts, hparts, -⟩ := Option.bind_eq_some_iff.mp h
  unfold timestampParts? at hparts
  obtain ⟨⟨date, rest⟩, hdate, hparts⟩ := Option.bind_eq_some_iff.mp hparts
  obtain ⟨behind, hseparator, -⟩ := Option.bind_eq_some_iff.mp hparts
  refine ⟨date, rest, hdate, ?_⟩
  rintro rfl
  cases hseparator

theorem takeTimeParts_of_timeText? {cs : List Char} {t : TimeOfDay} (h : timeText? cs = some t) :
    ∃ parts, takeTimeParts cs = some (parts, []) := by
  unfold timeText? at h
  split at h
  · exact ⟨_, ‹_›⟩
  · cases h

theorem formOf_of_takeDateParts {cs rest : List Char} {parts : Nat × Nat × Nat}
    (h : takeDateParts cs = some (parts, rest)) :
    formOf cs = if rest = [] then .date else .timestamp := by
  have hled := ledBy_of_takeDateParts h
  obtain ⟨behind, hdrop⟩ := hled.dropWhile (by decide)
  rw [formOf, if_pos hled.any_isDigit.1, if_pos hled.any_isDigit.2, hdrop, h]
  simp

theorem formOf_of_timeText? {cs : List Char} {t : TimeOfDay} (h : timeText? cs = some t) :
    formOf cs = .time := by
  obtain ⟨parts, hparts⟩ := takeTimeParts_of_timeText? h
  have hled := ledBy_of_takeTimeParts hparts
  obtain ⟨behind, hdrop⟩ := hled.dropWhile (by decide)
  rw [formOf, if_pos hled.any_isDigit.1, if_pos hled.any_isDigit.2, hdrop]
  rfl

/-! ## Numbers -/

theorem WritesDigits.exists_digit {ds : List Char} {size : ℚ} (h : WritesDigits ds size) :
    ∃ c ∈ ds, isDigit c = true := by
  cases h with
  | whole hne hds =>
    obtain ⟨d, hd⟩ := List.exists_mem_of_ne_nil _ hne
    exact ⟨d, hd, hds d hd⟩
  | @point whole fs hne hwhole hfs =>
    obtain ⟨d, hd⟩ := List.exists_mem_of_ne_nil _ hne
    rcases List.mem_append.mp hd with hd | hd
    · exact ⟨d, List.mem_append_left _ hd, hwhole d hd⟩
    · exact ⟨d, List.mem_append_right _ (List.mem_cons_of_mem _ hd), hfs d hd⟩

theorem any_isDigit_of_ofChars? {cs : List Char} {l : Literal} (h : Literal.ofChars? cs = some l) :
    cs.any isDigit = true := by
  obtain ⟨q, hwrites⟩ : ∃ q, WritesNumber cs q := ⟨_, writesNumber_of_ofChars? h⟩
  cases hwrites with
  | parts hss hds hes =>
    obtain ⟨c, hc, hdigit⟩ := hds.exists_digit
    exact List.any_eq_true.mpr
      ⟨c, List.mem_append_right _ (List.mem_append_left _ hc), hdigit⟩

/-- Behind the digits at the head of a number there is a point, an exponent or nothing. -/
theorem dropWhile_digits {ds es rest : List Char} {size : ℚ} {e : Int} {c : Char}
    (hds : WritesDigits ds size) (hes : WritesExponent es e)
    (h : (ds ++ es).dropWhile isDigit = c :: rest) : c = '.' ∨ c = 'e' ∨ c = 'E' := by
  cases hds with
  | whole hne hdigits =>
    rw [(span_append hdigits (stops_of_exponent? (exponent?_eq_some_iff.mpr hes)).1).2] at h
    cases hes with
    | none => cases h
    | letter hc hinteger =>
      cases h
      exact Or.inr hc
  | @point whole fs hne hwhole hfs =>
    have hpoint : ('.' :: (fs ++ es)).head?.any isDigit = false := (by decide : isDigit '.' = false)
    rw [List.append_assoc, List.cons_append, (span_append hwhole hpoint).2] at h
    cases h
    exact Or.inl rfl

theorem formOf_of_ofChars? {cs : List Char} {l : Literal} (h : Literal.ofChars? cs = some l) :
    formOf cs = .number := by
  rw [formOf, if_pos (any_isDigit_of_ofChars? h)]
  split
  · rename_i hhead
    obtain ⟨q, hwrites⟩ : ∃ q, WritesNumber cs q := ⟨_, writesNumber_of_ofChars? h⟩
    cases hwrites with
    | parts hss hds hes =>
      cases hss with
      | plus => exact absurd hhead (by decide : ¬ isDigit '+' = true)
      | minus => exact absurd hhead (by decide : ¬ isDigit '-' = true)
      | none =>
        rw [List.nil_append]
        split
        · rename_i heq
          exact absurd (dropWhile_digits hds hes heq) (by decide)
        · rename_i heq
          exact absurd (dropWhile_digits hds hes heq) (by decide)
        · rfl
  · rfl

end Columnar.Scalar
