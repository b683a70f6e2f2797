import Columnar.Proofs.Number.Nearest
import Columnar.Proofs.Text.Digit
import Columnar.Scalar.Literal

/-!
# The grammar of numbers

A number is written as an optional sign, digits with at most one point among or around them, and an
optional exponent behind a letter e. The grammar says which texts write a number and which rational
number each of them writes, the digits behind the point in their own places. Main statement: a
literal stands for the number that the grammar has its text write, and every such text is a literal.
-/

namespace Columnar.Scalar

open Text

/-! ## What is written -/

def AllDigits (ds : List Char) : Prop := ∀ c ∈ ds, isDigit c = true

/-- The number that a run of digits of any script spells. -/
def digitsValue (ds : List Char) : Nat := number (ds.filterMap digit?)

/-- An optional sign and the factor that it stands for. -/
inductive WritesSign : List Char → Int → Prop
  | none : WritesSign [] 1
  | plus : WritesSign ['+'] 1
  | minus : WritesSign ['-'] (-1)

/-- An optional sign and digits. -/
inductive WritesInteger : List Char → Int → Prop
  | parts {ss sign ds} : WritesSign ss sign → ds ≠ [] → AllDigits ds →
      WritesInteger (ss ++ ds) (sign * digitsValue ds)

/-- The power of ten behind a letter e, if there is one. -/
inductive WritesExponent : List Char → Int → Prop
  | none : WritesExponent [] 0
  | letter {c cs e} : c = 'e' ∨ c = 'E' → WritesInteger cs e → WritesExponent (c :: cs) e

/-- Digits, at least one, with at most one point. -/
inductive WritesDigits : List Char → ℚ → Prop
  | whole {ds} : ds ≠ [] → AllDigits ds → WritesDigits ds (digitsValue ds)
  | point {ds fs} : ds ++ fs ≠ [] → AllDigits ds → AllDigits fs →
      WritesDigits (ds ++ '.' :: fs) (digitsValue ds + digitsValue fs / 10 ^ fs.length)

/-- A text and the rational number that it writes. -/
inductive WritesNumber : List Char → ℚ → Prop
  | parts {ss ds es sign size e} : WritesSign ss sign → WritesDigits ds size →
      WritesExponent es e → WritesNumber (ss ++ (ds ++ es)) (sign * size * 10 ^ e)

/-- The number that a literal stands for. -/
def Literal.value (l : Literal) : ℚ := signed l.negative l.coefficient * (10 : ℚ) ^ l.exponent

/-! ## Signs and digits -/

theorem signed_eq_mul (negative : Bool) (n : Nat) : signed negative n = signed negative 1 * n := by
  cases negative
  · exact (Int.one_mul _).symm
  · exact (Int.neg_one_mul _).symm

theorem writesSign_spanSign (cs : List Char) :
    ∃ ss, cs = ss ++ (spanSign cs).2 ∧ WritesSign ss (signed (spanSign cs).1 1) := by
  unfold spanSign
  split
  · exact ⟨['+'], rfl, .plus⟩
  · exact ⟨['-'], rfl, .minus⟩
  · exact ⟨[], rfl, .none⟩

/-- A sign is taken off a text that goes on with something else than a sign. -/
theorem spanSign_append {ss rest : List Char} {sign : Int} (h : WritesSign ss sign)
    (hplus : rest.head? ≠ some '+') (hminus : rest.head? ≠ some '-') :
    ∃ negative, spanSign (ss ++ rest) = (negative, rest) ∧ signed negative 1 = sign := by
  cases h with
  | plus => exact ⟨false, rfl, rfl⟩
  | minus => exact ⟨true, rfl, rfl⟩
  | none =>
    refine ⟨false, ?_, rfl⟩
    rw [List.nil_append]
    unfold spanSign
    split
    · exact absurd rfl hplus
    · exact absurd rfl hminus
    · rfl

theorem exists_spanDigits (cs : List Char) :
    ∃ ds rest, cs = ds ++ rest ∧ AllDigits ds ∧ spanDigits cs = (ds.filterMap digit?, rest) :=
  ⟨cs.takeWhile isDigit, cs.dropWhile isDigit, List.takeWhile_append_dropWhile.symm,
    List.all_eq_true.mp List.all_takeWhile, rfl⟩

theorem filterMap_eq_nil_iff {ds : List Char} (h : AllDigits ds) :
    ds.filterMap digit? = [] ↔ ds = [] := by
  rw [← List.length_eq_zero_iff, length_filterMap h, List.length_eq_zero_iff]

/-- A digit is no sign. -/
theorem AllDigits.head_ne {ds : List Char} (h : AllDigits ds) (hne : ds ≠ []) (rest : List Char)
    {c : Char} (hc : isDigit c = false) : (ds ++ rest).head? ≠ some c := by
  obtain ⟨d, behind, rfl⟩ := List.exists_cons_of_ne_nil hne
  have hd : isDigit d = true := h d List.mem_cons_self
  rintro ⟨⟩
  rw [hc] at hd
  cases hd

theorem spanSign_digits {ss ds : List Char} {sign : Int} (h : WritesSign ss sign)
    (hds : AllDigits ds) (hne : ds ≠ []) (rest : List Char) :
    ∃ negative, spanSign (ss ++ (ds ++ rest)) = (negative, ds ++ rest) ∧
      signed negative 1 = sign :=
  spanSign_append h (hds.head_ne hne rest (by decide : isDigit '+' = false))
    (hds.head_ne hne rest (by decide : isDigit '-' = false))

/-! ## Integer literals -/

/-- An integer literal is a sign and digits up to its end. -/
theorem integerLiteral?_eq_some_iff {cs : List Char} {n : Int} :
    integerLiteral? cs = some n ↔
      ∃ ds, spanDigits (spanSign cs).2 = (ds, []) ∧ ds ≠ [] ∧
        n = signed (spanSign cs).1 (number ds) := by
  unfold integerLiteral?
  generalize spanSign cs = s
  obtain ⟨negative, rest⟩ := s
  dsimp only
  generalize spanDigits rest = d
  obtain ⟨ds, rest⟩ := d
  cases ds <;> cases rest <;> simp [eq_comm]

theorem integerLiteral?_eq_some_iff_writes {cs : List Char} {n : Int} :
    integerLiteral? cs = some n ↔ WritesInteger cs n := by
  rw [integerLiteral?_eq_some_iff]
  constructor
  · rintro ⟨values, hspan, hne, rfl⟩
    obtain ⟨ss, hcs, hss⟩ := writesSign_spanSign cs
    obtain ⟨ds, rest, hrest, hds, hdigits⟩ := exists_spanDigits (spanSign cs).2
    rw [hdigits, Prod.mk.injEq] at hspan
    obtain ⟨rfl, rfl⟩ := hspan
    have hvalue := WritesInteger.parts hss (mt (filterMap_eq_nil_iff hds).mpr hne) hds
    rw [List.append_nil] at hrest
    rw [hrest] at hcs
    rwa [← hcs, ← signed_eq_mul] at hvalue
  · intro h
    cases h with
    | @parts ss sign ds hss hne hds =>
      obtain ⟨negative, hspan, rfl⟩ := spanSign_digits hss hds hne []
      have hdigits : spanDigits (ds ++ []) = (ds.filterMap digit?, []) :=
        spanDigits_append hds rfl
      rw [List.append_nil] at hspan hdigits
      refine ⟨ds.filterMap digit?, ?_, mt (filterMap_eq_nil_iff hds).mp hne, ?_⟩
      · rw [hspan, hdigits]
      · rw [hspan]
        exact (signed_eq_mul _ _).symm

theorem mem_integerLiteral? {cs : List Char} {n : Int} (h : integerLiteral? cs = some n) {c : Char}
    (hc : c ∈ cs) : c = '+' ∨ c = '-' ∨ isDigit c = true := by
  cases integerLiteral?_eq_some_iff_writes.mp h with
  | parts hss hne hds =>
    rcases List.mem_append.mp hc with hc | hc
    · cases hss with
      | none => cases hc
      | plus => exact Or.inl (List.mem_singleton.mp hc)
      | minus => exact Or.inr (Or.inl (List.mem_singleton.mp hc))
    · exact Or.inr (Or.inr (hds c hc))

theorem exponent?_eq_some_iff {cs : List Char} {e : Int} :
    exponent? cs = some e ↔ WritesExponent cs e := by
  constructor
  · intro h
    cases cs with
    | nil =>
      cases h
      exact .none
    | cons c rest =>
      obtain ⟨hc, hrest⟩ := Option.ite_none_right_eq_some.mp h
      exact .letter hc (integerLiteral?_eq_some_iff_writes.mp hrest)
  · intro h
    cases h with
    | none => rfl
    | letter hc hrest =>
      show (if _ then _ else _) = _
      rw [if_pos hc, integerLiteral?_eq_some_iff_writes.mpr hrest]

/-! ## Literals -/

/-- Behind the digits there is a point with a fraction, or none. -/
theorem spanFraction_cases (cs : List Char) :
    spanFraction cs = (none, cs) ∨
      ∃ fs rest, cs = '.' :: (fs ++ rest) ∧ AllDigits fs ∧
        spanFraction cs = (some (fs.filterMap digit?), rest) := by
  unfold spanFraction
  split
  · rename_i behind
    obtain ⟨fs, rest, hbehind, hfs, hdigits⟩ := exists_spanDigits behind
    exact Or.inr ⟨fs, rest, by rw [hbehind], hfs, by rw [hdigits]⟩
  · exact Or.inl rfl

/-- What stands behind the digits of a number is no digit and no point. -/
theorem stops_of_exponent? {es : List Char} {e : Int} (h : exponent? es = some e) :
    es.head?.any isDigit = false ∧ spanFraction es = (none, es) := by
  cases es with
  | nil => exact ⟨rfl, rfl⟩
  | cons c rest =>
    rcases (Option.ite_none_right_eq_some.mp h).1 with rfl | rfl
    · exact ⟨(by decide : isDigit 'e' = false), rfl⟩
    · exact ⟨(by decide : isDigit 'E' = false), rfl⟩

section

variable {cs ds fs es : List Char} {negative : Bool} {e : Int}

theorem literal_whole (hspan : spanSign cs = (negative, ds ++ es)) (hds : AllDigits ds)
    (hne : ds ≠ []) (hes : exponent? es = some e) :
    Literal.ofChars? cs = some ⟨negative, digitsValue ds, e⟩ := by
  obtain ⟨hstop, hfraction⟩ := stops_of_exponent? hes
  unfold Literal.ofChars?
  rw [hspan]
  dsimp only
  rw [spanDigits_append hds hstop]
  dsimp only
  rw [hfraction]
  dsimp only
  rw [Option.getD_none, List.append_nil, if_neg, hes, Option.map_some]
  · simp [digitsValue]
  · rwa [List.isEmpty_iff, filterMap_eq_nil_iff hds]

theorem literal_point (hspan : spanSign cs = (negative, ds ++ '.' :: (fs ++ es)))
    (hds : AllDigits ds) (hfs : AllDigits fs) (hne : ds ++ fs ≠ []) (hes : exponent? es = some e) :
    Literal.ofChars? cs = some ⟨negative, digitsValue (ds ++ fs), e - fs.length⟩ := by
  obtain ⟨hstop, -⟩ := stops_of_exponent? hes
  have hpoint : ('.' :: (fs ++ es)).head?.any isDigit = false := (by decide : isDigit '.' = false)
  have hspanFraction : spanFraction ('.' :: (fs ++ es)) = (some (fs.filterMap digit?), es) := by
    rw [spanFraction, spanDigits_append hfs hstop]
  have hall : AllDigits (ds ++ fs) := fun c hc => (List.mem_append.mp hc).elim (hds c) (hfs c)
  unfold Literal.ofChars?
  rw [hspan]
  dsimp only
  rw [spanDigits_append hds hpoint]
  dsimp only
  rw [hspanFraction]
  dsimp only
  rw [Option.getD_some, ← List.filterMap_append, if_neg, hes, Option.map_some,
    length_filterMap hfs]
  · rfl
  · rwa [List.isEmpty_iff, filterMap_eq_nil_iff hall]

/-- An integer literal is a literal without an exponent. -/
theorem ofChars?_of_integerLiteral? {n : Int} (h : integerLiteral? cs = some n) :
    ∃ negative c, Literal.ofChars? cs = some ⟨negative, c, 0⟩ ∧ n = signed negative c := by
  cases integerLiteral?_eq_some_iff_writes.mp h with
  | @parts ss sign ds hss hne hds =>
    obtain ⟨negative, hspan, rfl⟩ := spanSign_digits hss hds hne []
    have hliteral := literal_whole hspan hds hne rfl
    rw [List.append_nil] at hliteral
    exact ⟨negative, digitsValue ds, hliteral, (signed_eq_mul _ _).symm⟩

/-- Digits behind the point count as many powers of ten less as there are of them. -/
theorem places_eq (hfs : AllDigits fs) :
    (digitsValue (ds ++ fs) : ℚ) * (10 : ℚ) ^ (e - fs.length) =
      (digitsValue ds + digitsValue fs / 10 ^ fs.length) * (10 : ℚ) ^ e := by
  have hten : (10 : ℚ) ^ fs.length ≠ 0 := by positivity
  unfold digitsValue
  rw [List.filterMap_append, number_append, length_filterMap hfs, Nat.pow_eq,
    zpow_sub₀ (by norm_num : (10 : ℚ) ≠ 0), zpow_natCast]
  push_cast
  field_simp

end

theorem writesNumber_of_ofChars? {cs : List Char} {l : Literal}
    (h : Literal.ofChars? cs = some l) : WritesNumber cs l.value := by
  obtain ⟨ss, hcs, hss⟩ := writesSign_spanSign cs
  obtain ⟨ds, behind, hbehind, hds, hdigits⟩ := exists_spanDigits (spanSign cs).2
  unfold Literal.ofChars? at h
  dsimp only at h
  rw [hdigits] at h
  dsimp only at h
  obtain ⟨hne, hmap⟩ := Option.ite_none_left_eq_some.mp h
  obtain ⟨e, he, rfl⟩ := Option.map_eq_some_iff.mp hmap
  have hexponent := exponent?_eq_some_iff.mp he
  rw [List.isEmpty_iff] at hne
  rw [Literal.value, signed_eq_mul]
  dsimp only
  rw [Int.cast_mul, Int.cast_natCast, mul_assoc]
  rcases spanFraction_cases behind with hfraction | ⟨fs, rest, rfl, hfs, hfraction⟩
  · rw [hfraction] at hne hexponent ⊢
    dsimp only [Option.getD_none] at hne hexponent ⊢
    rw [List.append_nil] at hne
    have hwrites := WritesNumber.parts hss
      (.whole (mt (filterMap_eq_nil_iff hds).mpr hne) hds) hexponent
    rw [← hbehind, ← hcs, mul_assoc] at hwrites
    simpa [digitsValue] using hwrites
  · rw [hfraction] at hne hexponent ⊢
    dsimp only [Option.getD_some] at hne hexponent ⊢
    rw [← List.filterMap_append] at hne
    have hsome : ds ++ fs ≠ [] := fun hnil => hne (by rw [hnil]; rfl)
    have hwrites := WritesNumber.parts hss (.point hsome hds hfs) hexponent
    rw [List.append_assoc, List.cons_append, ← hbehind, ← hcs, mul_assoc] at hwrites
    rw [← List.filterMap_append, length_filterMap hfs]
    rwa [← places_eq hfs] at hwrites

theorem ofChars?_of_writesNumber {cs : List Char} {q : ℚ} (h : WritesNumber cs q) :
    ∃ l, Literal.ofChars? cs = some l ∧ l.value = q := by
  cases h with
  | @parts ss ds es sign size e hss hds hes =>
    have hexponent := exponent?_eq_some_iff.mpr hes
    cases hds with
    | whole hne hdigits =>
      obtain ⟨negative, hspan, rfl⟩ := spanSign_digits hss hdigits hne es
      refine ⟨_, literal_whole hspan hdigits hne hexponent, ?_⟩
      rw [Literal.value, signed_eq_mul]
      push_cast
      rfl
    | @point whole fs hne hwhole hfs =>
      have hhead : ∀ c, isDigit c = false → c ≠ '.' →
          (whole ++ '.' :: (fs ++ es)).head? ≠ some c := by
        intro c hc hpoint
        cases whole with
        | nil => exact fun heq => hpoint (Option.some.inj heq).symm
        | cons d behind => exact hwhole.head_ne (List.cons_ne_nil _ _) _ hc
      obtain ⟨negative, hspan, rfl⟩ := spanSign_append hss
        (hhead '+' (by decide) (by decide)) (hhead '-' (by decide) (by decide))
      rw [List.append_assoc, List.cons_append]
      refine ⟨_, literal_point hspan hwhole hfs hne hexponent, ?_⟩
      rw [Literal.value, signed_eq_mul]
      dsimp only
      rw [Int.cast_mul, Int.cast_natCast, mul_assoc, places_eq hfs, mul_assoc]

/-- **A literal stands for the number that its text writes.** The texts that are literals are those
that the grammar has write a number. -/
theorem writesNumber_iff {cs : List Char} {q : ℚ} :
    WritesNumber cs q ↔ ∃ l, Literal.ofChars? cs = some l ∧ l.value = q := by
  constructor
  · exact ofChars?_of_writesNumber
  · rintro ⟨l, hl, rfl⟩
    exact writesNumber_of_ofChars? hl

end Columnar.Scalar
