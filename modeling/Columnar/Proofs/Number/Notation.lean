import Columnar.Proofs.Number.Grammar
import Columnar.Scalar.Classify

/-!
# Written numbers read back

An integer is written as an integer literal that reads back as that integer. The digits of a
decimal are written around a point or before an exponent; where the point stands, how many zeros
fill the gap and whether there is an exponent changes the literal but not the number. Main
statement: the text of a finite double is a literal, and its double is that double again.
-/

namespace Columnar

open Text

namespace Scalar

/-! ## Literals -/

/-- The sign in front of a number; a number that is not negative has none. -/
def signChars (negative : Bool) : List Char := if negative then ['-'] else []

theorem writesSign_signChars (negative : Bool) :
    WritesSign (signChars negative) (signed negative 1) := by
  cases negative with
  | true => exact .minus
  | false => exact .none

theorem spanSign_ascii (negative : Bool) {ds : List Char} (hds : AllAscii ds) (hne : ds ≠ [])
    (rest : List Char) :
    spanSign (signChars negative ++ (ds ++ rest)) = (negative, ds ++ rest) := by
  obtain ⟨read, hspan, hsign⟩ := spanSign_digits (writesSign_signChars negative) hds.digits hne rest
  have hsame : ∀ a b : Bool, signed a 1 = signed b 1 → a = b := by decide
  rw [hspan, hsame read negative hsign]

theorem integerLiteral?_ascii {ds : List Char} (hds : AllAscii ds) (hne : ds ≠ []) :
    integerLiteral? ds = some (spelled ds : Int) ∧
      integerLiteral? ('+' :: ds) = some (spelled ds : Int) ∧
      integerLiteral? ('-' :: ds) = some (-(spelled ds : Int)) := by
  have hread {ss : List Char} {sign : Int} (hss : WritesSign ss sign) :
      integerLiteral? (ss ++ ds) = some (sign * spelled ds) := by
    rw [← number_filterMap hds]
    exact integerLiteral?_eq_some_iff_writes.mpr (.parts hss hne hds.digits)
  exact ⟨by simpa using hread .none, by simpa using hread .plus, by simpa using hread .minus⟩

theorem integerLiteral?_integerText (n : Int) : integerLiteral? (integerText n) = some n := by
  have hread (n : Nat) := integerLiteral?_ascii (decimalDigits_ascii n) (decimalDigits_ne_nil n)
  cases n with
  | ofNat n =>
    rw [integerText, (hread n).1, spelled_decimalDigits]
    rfl
  | negSucc n =>
    rw [integerText, (hread (n + 1)).2.2, spelled_decimalDigits]
    rfl

theorem spanSign_integerText (n : Int) :
    (spanSign (integerText n)).2 = decimalDigits n.natAbs := by
  cases n with
  | ofNat n =>
    have hspan := spanSign_ascii false (decimalDigits_ascii n) (decimalDigits_ne_nil n) []
    rw [List.append_nil] at hspan
    exact congrArg Prod.snd hspan
  | negSucc n => rfl

theorem ofChars?_whole (negative : Bool) {whole tail : List Char} {x : Int}
    (hwhole : AllAscii whole) (hne : whole ≠ []) (htail : exponent? tail = some x) :
    Literal.ofChars? (signChars negative ++ (whole ++ tail)) =
      some ⟨negative, spelled whole, x⟩ := by
  rw [literal_whole (spanSign_ascii negative hwhole hne tail) hwhole.digits hne htail, digitsValue,
    number_filterMap hwhole]

theorem ofChars?_point (negative : Bool) {whole fraction tail : List Char} {x : Int}
    (hwhole : AllAscii whole) (hne : whole ≠ []) (hfraction : AllAscii fraction)
    (htail : exponent? tail = some x) :
    Literal.ofChars? (signChars negative ++ (whole ++ '.' :: (fraction ++ tail))) =
      some ⟨negative, spelled (whole ++ fraction), x - fraction.length⟩ := by
  have hspan := spanSign_ascii negative hwhole hne ('.' :: (fraction ++ tail))
  have hdigits : whole ++ fraction ≠ [] := List.append_ne_nil_of_left_ne_nil hne _
  rw [literal_point hspan hwhole.digits hfraction.digits hdigits htail, digitsValue,
    number_filterMap (hwhole.append hfraction)]

/-! ## Decimals -/

/-- The characters of written numbers. -/
def isNumeral (c : Char) : Bool := c.isDigit || c ∈ ['.', 'e', '+', '-']

theorem isNumeral_of_ascii {ds : List Char} (h : AllAscii ds) : ∀ c ∈ ds, isNumeral c = true := by
  intro c hc
  rw [isNumeral, h c hc, Bool.true_or]

/-- The text is a literal for the number of a decimal, also with a sign in front, and shows by a
point or an exponent that it is no integer. -/
structure Writes (cs : List Char) (d : Decimal) : Prop where
  numerals : ∀ c ∈ cs, isNumeral c = true
  marked : '.' ∈ cs ∨ 'e' ∈ cs
  literal : ∃ d' : Decimal, d'.value = d.value ∧ ∀ negative,
    Literal.ofChars? (signChars negative ++ cs) = some ⟨negative, d'.coefficient, d'.exponent⟩

theorem Writes.congr {cs : List Char} {d d' : Decimal} (h : Writes cs d)
    (hvalue : d.value = d'.value) : Writes cs d' := by
  obtain ⟨read, hread, hliteral⟩ := h.literal
  exact ⟨h.numerals, h.marked, read, hread.trans hvalue, hliteral⟩

/-- Digits around a point. -/
theorem writes_point {whole fraction : List Char} (hwhole : AllAscii whole) (hne : whole ≠ [])
    (hfraction : AllAscii fraction) :
    Writes (whole ++ '.' :: fraction) ⟨spelled (whole ++ fraction), -fraction.length⟩ where
  numerals := by
    intro c hc
    rcases List.mem_append.mp hc with hc | hc
    · exact isNumeral_of_ascii hwhole c hc
    rcases List.mem_cons.mp hc with rfl | hc
    · rfl
    · exact isNumeral_of_ascii hfraction c hc
  marked := Or.inl (by simp)
  literal := by
    refine ⟨_, rfl, fun negative => ?_⟩
    have hread : Literal.ofChars? (signChars negative ++ (whole ++ '.' :: (fraction ++ []))) = _ :=
      ofChars?_point negative hwhole hne hfraction rfl
    rwa [List.append_nil, Int.zero_sub] at hread

/-- An exponent with its sign. -/
def exponentChars (e : Int) : List Char :=
  'e' :: (if e < 0 then '-' else '+') :: padded 2 e.natAbs

theorem exponent?_exponentChars (e : Int) : exponent? (exponentChars e) = some e := by
  obtain ⟨-, hplus, hminus⟩ :=
    integerLiteral?_ascii (padded_ascii 2 e.natAbs) (padded_ne_nil 2 e.natAbs)
  rw [spelled_padded] at hplus hminus
  unfold exponent? exponentChars
  dsimp only
  rw [if_pos (Or.inl rfl)]
  split
  · rw [hminus, Option.some_inj]
    omega
  · rw [hplus, Option.some_inj]
    omega

theorem numerals_exponentChars (e : Int) : ∀ c ∈ exponentChars e, isNumeral c = true := by
  unfold exponentChars
  have hdigits := isNumeral_of_ascii (padded_ascii 2 e.natAbs)
  split <;> exact List.forall_mem_cons.mpr ⟨rfl, List.forall_mem_cons.mpr ⟨rfl, hdigits⟩⟩

/-- One digit, the others behind a point if there are any, and an exponent. -/
theorem writes_scientific {ds : List Char} (hds : AllAscii ds) (hne : ds ≠ []) (e : Int) :
    Writes (Decimal.scientific ds e) ⟨spelled ds, e + 1 - ds.length⟩ := by
  obtain ⟨d, fraction, rfl⟩ := List.exists_cons_of_ne_nil hne
  have hhead : AllAscii [d] := by simpa [AllAscii] using hds d List.mem_cons_self
  have hfraction : AllAscii fraction := fun c hc => hds c (List.mem_cons_of_mem _ hc)
  have hexponent := exponent?_exponentChars e
  have hnumerals := numerals_exponentChars e
  have hscale : e + 1 - ((d :: fraction).length : Int) = e - fraction.length := by
    rw [List.length_cons]
    omega
  rw [hscale]
  cases hcase : fraction with
  | nil =>
    have htext : Decimal.scientific [d] e = [d] ++ exponentChars e := rfl
    rw [htext]
    refine ⟨?_, Or.inr (by simp [exponentChars]), _, rfl, fun negative => ?_⟩
    · intro c hc
      exact (List.mem_append.mp hc).elim (isNumeral_of_ascii hhead c) (hnumerals c)
    · rw [ofChars?_whole negative hhead (by simp) hexponent]
      simp
  | cons f rest =>
    rw [← hcase]
    have htext : Decimal.scientific (d :: fraction) e =
        [d] ++ '.' :: (fraction ++ exponentChars e) := by
      subst hcase
      rfl
    rw [htext]
    refine ⟨?_, Or.inl (by simp), _, rfl, fun negative => ?_⟩
    · intro c hc
      rcases List.mem_append.mp hc with hc | hc
      · exact isNumeral_of_ascii hhead c hc
      rcases List.mem_cons.mp hc with rfl | hc
      · rfl
      · exact (List.mem_append.mp hc).elim (isNumeral_of_ascii hfraction c) (hnumerals c)
    · rw [ofChars?_point negative hhead (by simp) hfraction hexponent]
      rfl

/-- Zeros behind the digits of a decimal only lower its exponent. -/
theorem value_zeros (ds : List Char) (k : Nat) (x : Int) :
    Decimal.value ⟨spelled (ds ++ List.replicate k '0'), x - k⟩ =
      Decimal.value ⟨spelled ds, x⟩ := by
  unfold Decimal.value
  dsimp only
  rw [spelled_append, spelled_zeros, List.length_replicate, Nat.add_zero, Nat.cast_mul,
    Nat.pow_eq, Nat.cast_pow, Nat.cast_ofNat, zpow_sub₀ (by decide), zpow_natCast]
  field_simp

/-- All digits behind the point, with zeros between. -/
theorem writes_behind_point {ds : List Char} (hds : AllAscii ds) (k : Nat) :
    Writes ('0' :: '.' :: (List.replicate k '0' ++ ds)) ⟨spelled ds, -(k : Int) - ds.length⟩ := by
  have hfraction : AllAscii (List.replicate k '0' ++ ds) := (AllAscii.zeros k).append hds
  have hzeros : spelled (['0'] ++ (List.replicate k '0' ++ ds)) = spelled ds := by
    rw [← List.append_assoc, ← List.replicate_one, List.replicate_append_replicate,
      spelled_append, spelled_zeros, Nat.mul_zero, Nat.zero_add]
  have hwrites := writes_point (AllAscii.zeros 1) (by simp) hfraction
  rw [List.replicate_one, hzeros] at hwrites
  refine hwrites.congr ?_
  congr 2
  rw [List.length_append, List.length_replicate]
  omega

/-- All digits in front of the point, with zeros between, and a zero behind it. -/
theorem writes_before_point {ds : List Char} (hds : AllAscii ds) (hne : ds ≠ []) (k : Nat) :
    Writes (ds ++ List.replicate k '0' ++ ['.', '0']) ⟨spelled ds, k⟩ := by
  have hzeros : ds ++ List.replicate k '0' ++ List.replicate 1 '0' =
      ds ++ List.replicate (k + 1) '0' := by
    rw [List.append_assoc, List.replicate_append_replicate]
  have hwrites := writes_point (hds.append (AllAscii.zeros k))
    (List.append_ne_nil_of_left_ne_nil hne _) (AllAscii.zeros 1)
  rw [hzeros] at hwrites
  refine hwrites.congr ?_
  rw [← value_zeros ds (k + 1)]
  congr 2
  rw [List.length_replicate]
  omega

/-- A point among the digits. -/
theorem writes_across_point {ds : List Char} (hds : AllAscii ds) {k : Nat} (hpos : 0 < k)
    (hk : k < ds.length) :
    Writes (ds.take k ++ '.' :: ds.drop k) ⟨spelled ds, k - ds.length⟩ := by
  have hwhole : AllAscii (ds.take k) := fun c hc => hds c (List.mem_of_mem_take hc)
  have hfraction : AllAscii (ds.drop k) := fun c hc => hds c (List.mem_of_mem_drop hc)
  have hne : ds.take k ≠ [] := List.ne_nil_of_length_pos (by rw [List.length_take]; omega)
  have hwrites := writes_point hwhole hne hfraction
  rw [List.take_append_drop] at hwrites
  refine hwrites.congr ?_
  congr 2
  rw [List.length_drop]
  omega

theorem writes_positional {ds : List Char} (hds : AllAscii ds) (hne : ds ≠ []) (e : Int) :
    Writes (Decimal.positional ds e) ⟨spelled ds, e + 1 - ds.length⟩ := by
  unfold Decimal.positional
  split
  · obtain ⟨k, rfl⟩ : ∃ k : Nat, e = -k - 1 := ⟨(-e - 1).toNat, by omega⟩
    have hcount : (-(-(k : Int) - 1) - 1).toNat = k := by omega
    have hscale : -(k : Int) - 1 + 1 - ds.length = -k - ds.length := by omega
    rw [hcount, hscale]
    exact writes_behind_point hds k
  obtain ⟨k, rfl⟩ := Int.eq_ofNat_of_zero_le (Int.not_lt.mp ‹_›)
  dsimp only
  rw [Int.toNat_natCast]
  by_cases hlength : ds.length ≤ k + 1
  · have hscale : (k : Int) + 1 - ds.length = (k + 1 - ds.length : Nat) := by omega
    rw [List.take_of_length_le hlength, List.drop_of_length_le hlength, hscale]
    exact writes_before_point hds hne (k + 1 - ds.length)
  · have hdrop : (ds.drop (k + 1)).isEmpty = false := by
      rw [List.isEmpty_eq_false_iff, Ne, List.drop_eq_nil_iff]
      exact hlength
    have hzeros : k + 1 - (ds.take (k + 1)).length = 0 := by
      rw [List.length_take]
      omega
    rw [hdrop, hzeros, List.replicate_zero, List.append_nil]
    exact writes_across_point hds (Nat.succ_pos k) (Nat.not_le.mp hlength)

theorem significant_eq (ds : List Char) :
    Decimal.significant ds =
      match dropBack (· == '0') ds with
      | [] => ['0']
      | kept => kept := rfl

/-- The significant digits of a number that is not zero are its digits without some zeros. -/
theorem exists_significant {ds : List Char} (hds : AllAscii ds) (h : spelled ds ≠ 0) :
    ∃ k, ds = Decimal.significant ds ++ List.replicate k '0' ∧
      AllAscii (Decimal.significant ds) ∧ Decimal.significant ds ≠ [] := by
  obtain ⟨back, hback, hzero⟩ := dropBack_append (· == '0') ds
  have hreplicate : back = List.replicate back.length '0' :=
    List.eq_replicate_iff.mpr ⟨rfl, fun c hc => by simpa using hzero c hc⟩
  have hkept : dropBack (· == '0') ds ≠ [] := by
    intro hnil
    rw [hnil, List.nil_append, hreplicate] at hback
    rw [hback, spelled_zeros] at h
    exact h rfl
  have hsignificant : Decimal.significant ds = dropBack (· == '0') ds := by
    rw [significant_eq]
    split
    · exact absurd ‹_› hkept
    · rfl
  rw [hsignificant]
  refine ⟨back.length, by rw [← hreplicate, ← hback], fun c hc => hds c ?_, hkept⟩
  rw [hback]
  exact List.mem_append_left _ hc

theorem writes_text {d : Decimal} (h : d.coefficient ≠ 0) : Writes d.text d := by
  have hspelled := spelled_decimalDigits d.coefficient
  obtain ⟨k, hk, hds, hne⟩ :=
    exists_significant (decimalDigits_ascii d.coefficient) (by rwa [hspelled])
  generalize hsignificant : Decimal.significant (decimalDigits d.coefficient) = ds at hk hds hne
  have hvalue (e : Int) (he : e = d.exponent + (decimalDigits d.coefficient).length - 1) :
      Decimal.value ⟨spelled ds, e + 1 - ds.length⟩ = d.value := by
    rw [← value_zeros ds k, ← hk, hspelled]
    congr 2
    rw [he, hk, List.length_append, List.length_replicate]
    omega
  unfold Decimal.text
  dsimp only
  rw [hsignificant]
  split
  · exact (writes_positional hds hne _).congr (hvalue _ rfl)
  · exact (writes_scientific hds hne _).congr (hvalue _ rfl)

/-! ## Doubles -/

/-- The text of a magnitude is a literal for it, whatever its sign. -/
theorem text_finite (negative : Bool) (m : Magnitude) :
    literalDouble? (Double.text (.finite negative m)) = some (.finite negative m) ∧
      (∀ c ∈ Double.text (.finite negative m), isNumeral c = true) ∧
      ('.' ∈ Double.text (.finite negative m) ∨ 'e' ∈ Double.text (.finite negative m)) := by
  have hsign : ∀ c ∈ signChars negative, isNumeral c = true :=
    List.all_eq_true.mp (by cases negative <;> rfl)
  have hread {cs : List Char} {d : Decimal} (hcs : Writes cs d)
      (hm : Magnitude.ofDecimal? d.coefficient d.exponent = some m) :
      literalDouble? (signChars negative ++ cs) = some (.finite negative m) ∧
        (∀ c ∈ signChars negative ++ cs, isNumeral c = true) ∧
        ('.' ∈ signChars negative ++ cs ∨ 'e' ∈ signChars negative ++ cs) := by
    obtain ⟨read, hvalue, hliteral⟩ := hcs.literal
    refine ⟨?_, ?_, hcs.marked.imp (List.mem_append_right _) (List.mem_append_right _)⟩
    · rw [literalDouble?, hliteral, Option.map_some, Double.ofDecimal,
        Magnitude.ofDecimal?_congr hvalue, hm]
    · exact fun c hc => (List.mem_append.mp hc).elim (hsign c) (hcs.numerals c)
  have htext : Double.text (.finite negative m) =
      signChars negative ++ (if m.mantissa = 0 then ['0', '.', '0'] else m.shortest.text) := rfl
  rw [htext]
  split
  · have hzero : m = Magnitude.zero := by
      obtain ⟨mantissa, exponent, hlt, hge, hle, hnormal⟩ := m
      obtain rfl : mantissa = 0 := ‹_›
      obtain rfl : exponent = -1074 := hnormal.resolve_left (by decide)
      rfl
    have hwrites := writes_point (AllAscii.zeros 1) (by simp) (AllAscii.zeros 1)
    exact hread hwrites (by rw [hzero]; rfl)
  · have hm : m.mantissa ≠ 0 := ‹_›
    have hshortest := Magnitude.ofDecimal?_shortest hm
    have hcoefficient : m.shortest.coefficient ≠ 0 := by
      intro hzero
      rw [hzero] at hshortest
      have : Magnitude.zero = m := Option.some.inj hshortest
      exact hm (this ▸ rfl)
    exact hread (writes_text hcoefficient) hshortest

theorem literalDouble?_text (negative : Bool) (m : Magnitude) :
    literalDouble? (Double.text (.finite negative m)) = some (.finite negative m) :=
  (text_finite negative m).1

/-- The point or the exponent keeps the text of a double from being an integer. -/
theorem integerLiteral?_text (negative : Bool) (m : Magnitude) :
    integerLiteral? (Double.text (.finite negative m)) = none := by
  cases h : integerLiteral? (Double.text (.finite negative m)) with
  | none => rfl
  | some n =>
    rcases (text_finite negative m).2.2 with hmem | hmem
    · rcases mem_integerLiteral? h hmem with hc | hc | hc <;> exact absurd hc (by decide)
    · rcases mem_integerLiteral? h hmem with hc | hc | hc <;> exact absurd hc (by decide)

end Scalar

/-! ## Characters of written numbers -/

/-- An integer is written with digits and a sign only. -/
theorem mem_integerText {n : Int} {c : Char} (h : c ∈ integerText n) :
    c = '-' ∨ c.isDigit = true := by
  cases n with
  | ofNat n => exact Or.inr (decimalDigits_ascii n c h)
  | negSucc n => exact (List.mem_cons.mp h).imp_right (decimalDigits_ascii (n + 1) c)

theorem length_integerText_le {n : Int} {k : Nat} (hk : 0 < k) (h : n.natAbs < 10 ^ k) :
    (integerText n).length ≤ k + 1 := by
  have hdigits {m : Nat} (hm : m < 10 ^ k) : (decimalDigits m).length ≤ k :=
    (Nat.length_toDigits_le_iff (by decide) hk).mpr hm
  cases n with
  | ofNat n => exact Nat.le_succ_of_le (hdigits h)
  | negSucc n => exact Nat.succ_le_succ (hdigits h)

theorem isBlank_of_isNumeral {c : Char} (h : Scalar.isNumeral c = true) : isBlank c = false := by
  rw [Scalar.isNumeral, Bool.or_eq_true, decide_eq_true_eq] at h
  rcases h with h | h
  · exact isBlank_of_ascii h
  · have hmarks : ['.', 'e', '+', '-'].any isBlank = false := by decide
    simpa using List.any_eq_false.mp hmarks c h

theorem isNumeral_integerText (n : Int) : ∀ c ∈ integerText n, Scalar.isNumeral c = true := by
  intro c hc
  rcases mem_integerText hc with rfl | hdigit
  · rfl
  · rw [Scalar.isNumeral, hdigit, Bool.true_or]

end Columnar
