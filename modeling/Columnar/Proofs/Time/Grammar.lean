import Columnar.Proofs.Text.Digit
import Columnar.Scalar.Temporal
import Mathlib.Data.List.TakeWhile

/-!
# The grammar of timestamps

A timestamp is a date, a separator, a time, and optionally blanks and an offset from universal time.
The grammar says of each part which texts write it and what they stand for: numbers by the digits
that spell them, the fraction of a second by its digits up to the sixth, an offset by its hours and
minutes with a sign. Main statement: the parts that are read off a text are those that the grammar
gives it, and a text outside the grammar is not read.
-/

namespace Columnar.Scalar

open Text

/-! ## What is written -/

/-- The text is a run of digits, at least `low` and at most `high`, that spells a number. -/
structure Spells (low high : Nat) (cs : List Char) (n : Nat) : Prop where
  low_le : low ≤ cs.length
  le_high : cs.length ≤ high
  digits : ∀ c ∈ cs, isDigit c = true
  value : number (cs.filterMap digit?) = n

/-- Year, month and day with hyphens between. -/
inductive WritesDate : List Char → Nat × Nat × Nat → Prop
  | parts {ys ms ds year month day} : Spells 4 4 ys year → Spells 1 2 ms month →
      Spells 1 2 ds day → WritesDate (ys ++ '-' :: (ms ++ '-' :: ds)) (year, month, day)

/-- A fraction of a second in whole microseconds. What its digits write beyond them is cut off. -/
inductive WritesFraction : List Char → Nat → Prop
  | none : WritesFraction [] 0
  | digits {fs n} : Spells 1 9 fs n →
      WritesFraction ('.' :: fs) (n * Nat.pow 10 6 / Nat.pow 10 fs.length)

/-- The second and the microsecond, if they are written. -/
inductive WritesSecond : List Char → Nat × Nat → Prop
  | none : WritesSecond [] (0, 0)
  | parts {ss fs second micro} : Spells 2 2 ss second → WritesFraction fs micro →
      WritesSecond (':' :: (ss ++ fs)) (second, micro)

/-- Hour, minute, second and microsecond. -/
inductive WritesTime : List Char → Nat × Nat × Nat × Nat → Prop
  | parts {hs ms ss hour minute second micro} : Spells 1 2 hs hour → Spells 2 2 ms minute →
      WritesSecond ss (second, micro) →
      WritesTime (hs ++ ':' :: (ms ++ ss)) (hour, minute, second, micro)

/-- What stands between the date and the time: a letter T or blanks. -/
inductive Separates : List Char → Prop
  | letter {c} : c = 'T' ∨ c = 't' → Separates [c]
  | blanks {bs} : bs ≠ [] → (∀ c ∈ bs, isBlank c = true) → Separates bs

/-- The minutes of an offset, if they are written, behind a colon or not. -/
inductive WritesMinutes : List Char → Nat → Prop
  | none : WritesMinutes [] 0
  | plain {ms minutes} : Spells 2 2 ms minutes → WritesMinutes ms minutes
  | colon {ms minutes} : Spells 2 2 ms minutes → WritesMinutes (':' :: ms) minutes

/-- An offset in microseconds. None and `Z` are that of universal time. -/
inductive WritesOffset : List Char → Int → Prop
  | none : WritesOffset [] 0
  | universal : WritesOffset ['Z'] 0
  | signed {c sign hs ms hours minutes} : c = '+' ∧ sign = 1 ∨ c = '-' ∧ sign = -1 →
      Spells 2 2 hs hours → WritesMinutes ms minutes →
      WritesOffset (c :: (hs ++ ms)) (sign * (((hours * 3600 + minutes * 60) * 1000000 : Nat) : Int))

/-- A date and a time with the offset in microseconds behind them. -/
inductive WritesTimestamp : List Char → Nat × Nat × Nat → Nat × Nat × Nat × Nat → Int → Prop
  | parts {ds ss ts bs os date time offset} : WritesDate ds date → Separates ss →
      WritesTime ts time → (∀ c ∈ bs, isBlank c = true) → WritesOffset os offset →
      WritesTimestamp (ds ++ (ss ++ (ts ++ (bs ++ os)))) date time offset

/-! ## Numbers -/

theorem takeChar_eq_some_iff {c : Char} {cs rest : List Char} :
    takeChar c cs = some rest ↔ cs = c :: rest := by
  cases cs with
  | nil => simp [takeChar]
  | cons d ds =>
    by_cases h : d = c
    · simp [takeChar, h]
    · simp [takeChar, h]

theorem takeChar_eq_none {c : Char} {cs : List Char} (h : cs.head? ≠ some c) :
    takeChar c cs = none := by
  cases cs with
  | nil => rfl
  | cons d ds => exact if_neg fun hd => h (congrArg some hd)

/-- Of the first characters of a text the digits are taken, up to one that is none. -/
theorem takeWhile_take_append {high : Nat} {ds rest : List Char}
    (hds : ∀ c ∈ ds, isDigit c = true) (hle : ds.length ≤ high)
    (hrest : rest.head?.any isDigit = false ∨ ds.length = high) :
    ((ds ++ rest).take high).takeWhile isDigit = ds := by
  rcases hrest with hrest | hlength
  · have hstop : (rest.take (high - ds.length)).head?.any isDigit = false := by
      rw [List.head?_take]
      split
      · rfl
      · exact hrest
    rw [List.take_append, List.take_of_length_le hle]
    exact (span_append hds hstop).1
  · rw [List.take_left' hlength]
    exact List.takeWhile_eq_self_iff.mpr hds

theorem takeNumber_append {low high n : Nat} {ds rest : List Char} (h : Spells low high ds n)
    (hrest : rest.head?.any isDigit = false ∨ ds.length = high) :
    takeNumber low high (ds ++ rest) = some (n, rest) := by
  unfold takeNumber
  dsimp only
  rw [takeWhile_take_append h.digits h.le_high hrest, if_neg (Nat.not_lt.mpr h.low_le), h.value,
    List.drop_left]

/-- A number of fixed width ends with its last digit, whatever stands behind it. -/
theorem takeNumber_append_fixed {width n : Nat} {ds : List Char} (h : Spells width width ds n)
    (rest : List Char) : takeNumber width width (ds ++ rest) = some (n, rest) :=
  takeNumber_append h (Or.inr (Nat.le_antisymm h.le_high h.low_le))

theorem exists_takeWhile_take (high : Nat) (cs : List Char) :
    ∃ ds, (cs.take high).takeWhile isDigit = ds ∧ cs = ds ++ cs.drop ds.length ∧
      ds.length ≤ high ∧ ∀ c ∈ ds, isDigit c = true := by
  have hprefix : (cs.take high).takeWhile isDigit <+: cs :=
    (List.takeWhile_prefix _).trans (List.take_prefix _ _)
  refine ⟨_, rfl, (List.prefix_iff_eq_append.mp hprefix).symm, ?_, ?_⟩
  · exact Nat.le_trans (List.takeWhile_prefix _).length_le (List.length_take_le _ _)
  · exact List.all_eq_true.mp List.all_takeWhile

theorem spells_of_takeNumber {low high n : Nat} {cs rest : List Char}
    (h : takeNumber low high cs = some (n, rest)) :
    ∃ ds, cs = ds ++ rest ∧ Spells low high ds n := by
  obtain ⟨ds, hds, hcs, hhigh, hdigits⟩ := exists_takeWhile_take high cs
  unfold takeNumber at h
  rw [hds] at h
  dsimp only at h
  split at h
  · cases h
  · rename_i hlow
    cases h
    exact ⟨ds, hcs, Nat.not_lt.mp hlow, hhigh, hdigits, rfl⟩

/-- Six digits of a fraction count, and less than six stand for as many with zeros behind. -/
theorem microsOfFraction_eq {ds : List Nat} (h : ∀ d ∈ ds, d < 10) :
    microsOfFraction ds = number ds * Nat.pow 10 6 / Nat.pow 10 ds.length := by
  have hpow (a b : Nat) : Nat.pow 10 (a + b) = Nat.pow 10 a * Nat.pow 10 b := Nat.pow_add 10 a b
  have hpos (k : Nat) : 0 < Nat.pow 10 k := Nat.pow_pos (by decide)
  unfold microsOfFraction
  dsimp only
  rcases Nat.le_total ds.length 6 with hshort | hlong
  · have hscale : Nat.pow 10 6 = Nat.pow 10 (6 - ds.length) * Nat.pow 10 ds.length := by
      rw [← hpow, Nat.sub_add_cancel hshort]
    rw [List.take_of_length_le hshort, hscale, ← Nat.mul_assoc, Nat.mul_div_cancel _ (hpos _)]
  · have hsplit := number_append (ds.take 6) (ds.drop 6)
    rw [List.take_append_drop] at hsplit
    have hcut : number (ds.drop 6) < Nat.pow 10 (ds.drop 6).length :=
      number_lt fun d hd => h d (List.mem_of_mem_drop hd)
    have hlength : ds.length = (ds.drop 6).length + 6 := by
      rw [List.length_drop, Nat.sub_add_cancel hlong]
    rw [List.length_take, Nat.min_eq_left hlong, hlength, hpow, Nat.mul_div_mul_right _ _ (hpos 6),
      hsplit, Nat.mul_comm _ (Nat.pow 10 (ds.drop 6).length), Nat.mul_add_div (hpos _),
      Nat.div_eq_of_lt hcut]
    exact Nat.mul_one _

/-! ## Dates -/

theorem takeDateParts_append {ds rest : List Char} {date : Nat × Nat × Nat}
    (h : WritesDate ds date) (hrest : rest.head?.any isDigit = false) :
    takeDateParts (ds ++ rest) = some (date, rest) := by
  cases h with
  | parts hyear hmonth hday =>
    simp only [List.append_assoc, List.cons_append]
    unfold takeDateParts
    simp only [Option.bind_eq_bind]
    rw [takeNumber_append_fixed hyear, Option.bind_some, takeChar_cons, Option.bind_some,
      takeNumber_append hmonth (Or.inl rfl), Option.bind_some, takeChar_cons, Option.bind_some,
      takeNumber_append hday (Or.inl hrest), Option.bind_some]
    rfl

theorem writesDate_of_takeDateParts {cs rest : List Char} {date : Nat × Nat × Nat}
    (h : takeDateParts cs = some (date, rest)) : ∃ ds, cs = ds ++ rest ∧ WritesDate ds date := by
  unfold takeDateParts at h
  obtain ⟨⟨year, behindYear⟩, hyear, h⟩ := Option.bind_eq_some_iff.mp h
  obtain ⟨monthOn, hfirst, h⟩ := Option.bind_eq_some_iff.mp h
  obtain ⟨⟨month, behindMonth⟩, hmonth, h⟩ := Option.bind_eq_some_iff.mp h
  obtain ⟨dayOn, hsecond, h⟩ := Option.bind_eq_some_iff.mp h
  obtain ⟨⟨day, behindDay⟩, hday, h⟩ := Option.bind_eq_some_iff.mp h
  cases h
  obtain ⟨ys, rfl, hys⟩ := spells_of_takeNumber hyear
  obtain ⟨ms, rfl, hms⟩ := spells_of_takeNumber hmonth
  obtain ⟨ds, rfl, hds⟩ := spells_of_takeNumber hday
  obtain rfl := takeChar_eq_some_iff.mp hfirst
  obtain rfl := takeChar_eq_some_iff.mp hsecond
  exact ⟨ys ++ '-' :: (ms ++ '-' :: ds), by simp, .parts hys hms hds⟩

/-! ## Times -/

/-- What stands behind a time does not go on with it. -/
structure EndsTime (rest : List Char) : Prop where
  digit : rest.head?.any isDigit = false
  point : rest.head? ≠ some '.'
  colon : rest.head? ≠ some ':'

variable {rest : List Char}

theorem takeFraction_append {fs : List Char} {micro : Nat} (h : WritesFraction fs micro)
    (hrest : EndsTime rest) : takeFraction (fs ++ rest) = some (micro, rest) := by
  cases h with
  | none =>
    rw [List.nil_append, takeFraction, takeChar_eq_none hrest.point]
  | @digits fs n hspells =>
    have hne : fs ≠ [] := List.ne_nil_of_length_pos hspells.low_le
    rw [List.cons_append, takeFraction, takeChar_cons]
    dsimp only
    rw [takeWhile_take_append hspells.digits hspells.le_high (Or.inl hrest.digit),
      if_neg (by simpa using hne), microsOfFraction_eq digit?_lt_of_mem, hspells.value,
      length_filterMap hspells.digits, List.drop_left]

theorem writesFraction_of_takeFraction {cs : List Char} {micro : Nat}
    (h : takeFraction cs = some (micro, rest)) :
    ∃ fs, cs = fs ++ rest ∧ WritesFraction fs micro := by
  unfold takeFraction at h
  split at h
  · cases h
    exact ⟨[], rfl, .none⟩
  · rename_i behind hpoint
    obtain rfl := takeChar_eq_some_iff.mp hpoint
    obtain ⟨fs, hfs, hbehind, hhigh, hdigits⟩ := exists_takeWhile_take 9 behind
    rw [hfs] at h
    dsimp only at h
    split at h
    · cases h
    · rename_i hne
      have hpos : 1 ≤ fs.length := List.length_pos_iff.mpr (by simpa using hne)
      cases h
      refine ⟨'.' :: fs, congrArg ('.' :: ·) hbehind, ?_⟩
      rw [microsOfFraction_eq digit?_lt_of_mem, length_filterMap hdigits]
      exact .digits ⟨hpos, hhigh, hdigits, rfl⟩

theorem takeSecond_append {ss : List Char} {parts : Nat × Nat} (h : WritesSecond ss parts)
    (hrest : EndsTime rest) : takeSecond (ss ++ rest) = some (parts, rest) := by
  cases h with
  | none => rw [List.nil_append, takeSecond, takeChar_eq_none hrest.colon]
  | parts hsecond hfraction =>
    simp only [List.cons_append, List.append_assoc]
    rw [takeSecond, takeChar_cons]
    simp only [Option.bind_eq_bind]
    rw [takeNumber_append_fixed hsecond, Option.bind_some, takeFraction_append hfraction hrest,
      Option.bind_some]
    rfl

theorem writesSecond_of_takeSecond {cs : List Char} {parts : Nat × Nat}
    (h : takeSecond cs = some (parts, rest)) : ∃ ss, cs = ss ++ rest ∧ WritesSecond ss parts := by
  unfold takeSecond at h
  split at h
  · cases h
    exact ⟨[], rfl, .none⟩
  · rename_i behind hcolon
    obtain ⟨⟨second, behindSecond⟩, hsecond, h⟩ := Option.bind_eq_some_iff.mp h
    obtain ⟨⟨micro, behindFraction⟩, hfraction, h⟩ := Option.bind_eq_some_iff.mp h
    cases h
    obtain ⟨ss, rfl, hss⟩ := spells_of_takeNumber hsecond
    obtain ⟨fs, rfl, hfs⟩ := writesFraction_of_takeFraction hfraction
    obtain rfl := takeChar_eq_some_iff.mp hcolon
    exact ⟨':' :: (ss ++ fs), by simp, .parts hss hfs⟩

theorem takeTimeParts_append {ts : List Char} {time : Nat × Nat × Nat × Nat}
    (h : WritesTime ts time) (hrest : EndsTime rest) :
    takeTimeParts (ts ++ rest) = some (time, rest) := by
  cases h with
  | parts hhour hminute hsecond =>
    simp only [List.append_assoc, List.cons_append]
    unfold takeTimeParts
    simp only [Option.bind_eq_bind]
    rw [takeNumber_append hhour (Or.inl rfl), Option.bind_some, takeChar_cons, Option.bind_some,
      takeNumber_append_fixed hminute, Option.bind_some, takeSecond_append hsecond hrest,
      Option.bind_some]
    rfl

theorem writesTime_of_takeTimeParts {cs : List Char} {time : Nat × Nat × Nat × Nat}
    (h : takeTimeParts cs = some (time, rest)) : ∃ ts, cs = ts ++ rest ∧ WritesTime ts time := by
  unfold takeTimeParts at h
  obtain ⟨⟨hour, behindHour⟩, hhour, h⟩ := Option.bind_eq_some_iff.mp h
  obtain ⟨minuteOn, hcolon, h⟩ := Option.bind_eq_some_iff.mp h
  obtain ⟨⟨minute, behindMinute⟩, hminute, h⟩ := Option.bind_eq_some_iff.mp h
  obtain ⟨⟨⟨second, micro⟩, behindSecond⟩, hsecond, h⟩ := Option.bind_eq_some_iff.mp h
  cases h
  obtain ⟨hs, rfl, hhs⟩ := spells_of_takeNumber hhour
  obtain ⟨ms, rfl, hms⟩ := spells_of_takeNumber hminute
  obtain ⟨ss, rfl, hss⟩ := writesSecond_of_takeSecond hsecond
  obtain rfl := takeChar_eq_some_iff.mp hcolon
  exact ⟨hs ++ ':' :: (ms ++ ss), by simp, .parts hhs hms hss⟩

/-! ## Separators and offsets -/

theorem takeSeparator_append {ss : List Char} (h : Separates ss)
    (hrest : rest.head?.any isBlank = false) : takeSeparator (ss ++ rest) = some rest := by
  cases h with
  | letter hc => exact if_pos hc
  | @blanks bs hne hbs =>
    obtain ⟨b, behind, rfl⟩ := List.exists_cons_of_ne_nil hne
    obtain ⟨hb, hbehind⟩ := List.forall_mem_cons.mp hbs
    have hletter : ¬(b = 'T' ∨ b = 't') := by
      rintro (rfl | rfl) <;> exact absurd hb (by decide)
    rw [List.cons_append, takeSeparator, if_neg hletter, if_pos hb, (span_append hbehind hrest).2]

theorem separates_of_takeSeparator {cs : List Char} (h : takeSeparator cs = some rest) :
    ∃ ss, cs = ss ++ rest ∧ Separates ss := by
  cases cs with
  | nil => cases h
  | cons c behind =>
    rw [takeSeparator] at h
    split at h
    · cases h
      exact ⟨[c], rfl, .letter ‹_›⟩
    split at h
    · rename_i hblank
      cases h
      refine ⟨c :: behind.takeWhile isBlank, ?_, .blanks (List.cons_ne_nil _ _) ?_⟩
      · rw [List.cons_append, List.takeWhile_append_dropWhile]
      · exact List.forall_mem_cons.mpr ⟨hblank, List.all_eq_true.mp List.all_takeWhile⟩
    · cases h

theorem writesMinutes_of_offsetMinutes? {cs : List Char} {minutes : Nat}
    (h : offsetMinutes? cs = some minutes) : WritesMinutes cs minutes := by
  unfold offsetMinutes? at h
  split at h
  · rename_i hempty
    cases h
    rw [List.isEmpty_iff.mp hempty]
    exact .none
  split at h
  · rename_i n hnumber
    cases h
    obtain ⟨ms, hcs, hms⟩ := spells_of_takeNumber hnumber
    rw [List.append_nil] at hcs
    cases hcolon : takeChar ':' cs with
    | none =>
      rw [hcolon, Option.getD_none] at hcs
      exact .plain (hcs ▸ hms)
    | some behind =>
      rw [hcolon, Option.getD_some] at hcs
      obtain rfl := takeChar_eq_some_iff.mp hcolon
      exact .colon (hcs ▸ hms)
  · cases h

theorem offsetMinutes?_of_writesMinutes {cs : List Char} {minutes : Nat}
    (h : WritesMinutes cs minutes) : offsetMinutes? cs = some minutes := by
  have hread {ms : List Char} (hms : Spells 2 2 ms minutes) :
      takeNumber 2 2 ms = some (minutes, []) := by
    have hfixed := takeNumber_append_fixed hms []
    rwa [List.append_nil] at hfixed
  cases h with
  | none => rfl
  | plain hms =>
    have hne : cs.isEmpty = false := by
      have hlength := hms.low_le
      cases cs with
      | nil => exact absurd hlength (by decide)
      | cons => rfl
    have hcolon : cs.head? ≠ some ':' := by
      intro hhead
      exact absurd (hms.digits ':' (List.mem_of_mem_head? hhead)) (by decide)
    rw [offsetMinutes?, hne, takeChar_eq_none hcolon, Option.getD_none, hread hms]
    rfl
  | colon hms =>
    rw [offsetMinutes?, takeChar_cons, Option.getD_some, hread hms]
    rfl

/-- An offset in whole minutes, counted in microseconds. -/
theorem offset?_signed {c : Char} {hs ms : List Char} {hours minutes : Nat}
    (hc : c = '+' ∨ c = '-') (hhours : Spells 2 2 hs hours) (hminutes : WritesMinutes ms minutes) :
    offset? (c :: (hs ++ ms)) =
      some ((if c = '-' then -1 else 1) * (((hours * 3600 + minutes * 60) * 1000000 : Nat) : Int)) := by
  have hread : offset? (c :: (hs ++ ms)) =
      some (if c = '-' then -(((hours * 60 + minutes) * 60 * 1000000 : Nat) : Int)
        else (((hours * 60 + minutes) * 60 * 1000000 : Nat) : Int)) := by
    unfold offset?
    split
    · rename_i heq
      cases heq
    · rename_i heq
      obtain rfl := (List.cons.inj heq).1
      exact absurd hc (by decide)
    · rename_i heq
      cases heq
      rw [if_pos hc]
      simp only [Option.bind_eq_bind]
      rw [takeNumber_append_fixed hhours, Option.bind_some,
        offsetMinutes?_of_writesMinutes hminutes, Option.bind_some]
      rfl
  rw [hread, Option.some_inj]
  split <;> omega

theorem writesOffset_of_offset? {cs : List Char} {offset : Int} (h : offset? cs = some offset) :
    WritesOffset cs offset := by
  have hwhole := h
  unfold offset? at h
  split at h
  · cases h
    exact .none
  · cases h
    exact .universal
  · rename_i c behind _
    obtain ⟨hsign, h⟩ := Option.ite_none_right_eq_some.mp h
    obtain ⟨⟨hours, behindHours⟩, hhours, h⟩ := Option.bind_eq_some_iff.mp h
    obtain ⟨minutes, hminutes, -⟩ := Option.bind_eq_some_iff.mp h
    obtain ⟨hs, rfl, hhs⟩ := spells_of_takeNumber hhours
    have hms := writesMinutes_of_offsetMinutes? hminutes
    rw [offset?_signed hsign hhs hms] at hwhole
    obtain rfl := Option.some.inj hwhole
    refine .signed ?_ hhs hms
    rcases hsign with rfl | rfl
    · exact Or.inl ⟨rfl, rfl⟩
    · exact Or.inr ⟨rfl, rfl⟩

theorem offset?_of_writesOffset {cs : List Char} {offset : Int} (h : WritesOffset cs offset) :
    offset? cs = some offset := by
  cases h with
  | none => rfl
  | universal => rfl
  | signed hsign hhours hminutes =>
    rcases hsign with ⟨rfl, rfl⟩ | ⟨rfl, rfl⟩
    · exact offset?_signed (Or.inl rfl) hhours hminutes
    · exact offset?_signed (Or.inr rfl) hhours hminutes

/-! ## Timestamps -/

theorem Separates.head {ss : List Char} (h : Separates ss) :
    (ss ++ rest).head?.any isDigit = false := by
  cases h with
  | letter hc =>
    rcases hc with rfl | rfl
    · exact (by decide : isDigit 'T' = false)
    · exact (by decide : isDigit 't' = false)
  | @blanks bs hne hbs =>
    obtain ⟨b, behind, rfl⟩ := List.exists_cons_of_ne_nil hne
    exact isDigit_of_isBlank (hbs b List.mem_cons_self)

theorem WritesTime.head {ts : List Char} {time : Nat × Nat × Nat × Nat} (h : WritesTime ts time) :
    (ts ++ rest).head?.any isBlank = false := by
  cases h with
  | @parts hs ms ss hour minute second micro hhour hminute hsecond =>
    obtain ⟨d, behind, rfl⟩ := List.exists_cons_of_length_pos hhour.low_le
    have hdigit : isDigit d = true := hhour.digits d List.mem_cons_self
    show isBlank d = false
    cases hblank : isBlank d with
    | false => rfl
    | true =>
      rw [isDigit_of_isBlank hblank] at hdigit
      cases hdigit

theorem WritesOffset.head {os : List Char} {offset : Int} (h : WritesOffset os offset) :
    os.head?.any isBlank = false ∧ EndsTime os := by
  cases h with
  | none => exact ⟨rfl, rfl, by decide, by decide⟩
  | universal => exact ⟨rfl, rfl, by decide, by decide⟩
  | signed hsign =>
    rcases hsign with ⟨rfl, -⟩ | ⟨rfl, -⟩
    · exact ⟨rfl, rfl, by simp, by simp⟩
    · exact ⟨rfl, rfl, by simp, by simp⟩

/-- Neither blanks nor an offset go on with a time. -/
theorem endsTime_blanks {bs os : List Char} {offset : Int} (hbs : ∀ c ∈ bs, isBlank c = true)
    (hos : WritesOffset os offset) : EndsTime (bs ++ os) := by
  cases bs with
  | nil => exact hos.head.2
  | cons b behind =>
    have hb : isBlank b = true := hbs b List.mem_cons_self
    refine ⟨isDigit_of_isBlank hb, ?_, ?_⟩
    all_goals
      intro heq
      cases heq
      exact absurd hb (by decide)

/-- **The grammar gives the parts of a timestamp.** A text is read as a date, a time and an offset
exactly if the grammar has it write them. -/
theorem timestampParts?_eq_some_iff {cs : List Char} {date : Nat × Nat × Nat}
    {time : Nat × Nat × Nat × Nat} {offset : Int} :
    timestampParts? cs = some (date, time, offset) ↔ WritesTimestamp cs date time offset := by
  constructor
  · intro h
    unfold timestampParts? at h
    obtain ⟨⟨date, behindDate⟩, hdate, h⟩ := Option.bind_eq_some_iff.mp h
    obtain ⟨timeOn, hseparator, h⟩ := Option.bind_eq_some_iff.mp h
    obtain ⟨⟨time, behindTime⟩, htime, h⟩ := Option.bind_eq_some_iff.mp h
    obtain ⟨offset, hoffset, h⟩ := Option.bind_eq_some_iff.mp h
    cases h
    obtain ⟨ds, rfl, hds⟩ := writesDate_of_takeDateParts hdate
    obtain ⟨ss, rfl, hss⟩ := separates_of_takeSeparator hseparator
    obtain ⟨ts, rfl, hts⟩ := writesTime_of_takeTimeParts htime
    have hos := writesOffset_of_offset? hoffset
    have hblanks : ∀ c ∈ behindTime.takeWhile isBlank, isBlank c = true :=
      List.all_eq_true.mp List.all_takeWhile
    have hwrites := WritesTimestamp.parts hds hss hts hblanks hos
    rwa [List.takeWhile_append_dropWhile] at hwrites
  · intro h
    cases h with
    | parts hds hss hts hbs hos =>
      have hend := endsTime_blanks hbs hos
      unfold timestampParts?
      simp only [Option.bind_eq_bind]
      rw [takeDateParts_append hds hss.head, Option.bind_some,
        takeSeparator_append hss hts.head, Option.bind_some, takeTimeParts_append hts hend,
        Option.bind_some, (span_append hbs hos.head.1).2, offset?_of_writesOffset hos,
        Option.bind_some]
      rfl

end Columnar.Scalar
