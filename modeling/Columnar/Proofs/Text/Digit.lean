import Columnar.Number.Notation
import Columnar.Text.Blank
import Columnar.Text.Digit

/-!
# Numbers in ASCII digits

Readers accept the digits of every script; numbers are written in those of ASCII. What is written
with them reads back: the digits at the head of a text are spanned up to the first character that
is no digit, and stand for the number that they spell in base ten.
-/

namespace Columnar

namespace Text

theorem digit?_of_isDigit {c : Char} (h : c.isDigit = true) :
    digit? c = some (c.toNat - '0'.toNat) := by
  obtain ⟨hlow, hhigh⟩ : '0'.toNat ≤ c.toNat ∧ c.toNat ≤ '9'.toNat := by
    simpa [Char.isDigit, UInt32.le_iff_toNat_le] using h
  exact if_pos ⟨hlow, hhigh⟩

theorem isDigit_of_ascii {c : Char} (h : c.isDigit = true) : isDigit c = true := by
  rw [isDigit, digit?_of_isDigit h]
  rfl

theorem isBlank_of_ascii {c : Char} (h : c.isDigit = true) : isBlank c = false := by
  obtain ⟨hlow, hhigh⟩ : '0'.toNat ≤ c.toNat ∧ c.toNat ≤ '9'.toNat := by
    simpa [Char.isDigit, UInt32.le_iff_toNat_le] using h
  have hzero : '0'.toNat = 48 := rfl
  have hnine : '9'.toNat = 57 := rfl
  unfold isBlank
  simp only [Bool.or_eq_false_iff, Bool.and_eq_false_iff, decide_eq_false_iff_not,
    beq_eq_false_iff_ne]
  omega

/-- Is every character a digit of ASCII? -/
def AllAscii (ds : List Char) : Prop := ∀ c ∈ ds, c.isDigit = true

/-- The number that ASCII digits spell. -/
def spelled (ds : List Char) : Nat := Nat.ofDigitChars 10 ds 0

theorem AllAscii.append {ds es : List Char} (hds : AllAscii ds) (hes : AllAscii es) :
    AllAscii (ds ++ es) := fun c hc => (List.mem_append.mp hc).elim (hds c) (hes c)

theorem AllAscii.zeros (k : Nat) : AllAscii (List.replicate k '0') := by
  intro c hc
  rw [List.eq_of_mem_replicate hc]
  rfl

theorem AllAscii.digits {ds : List Char} (h : AllAscii ds) : ∀ c ∈ ds, isDigit c = true :=
  fun c hc => isDigit_of_ascii (h c hc)

theorem AllAscii.not_blank {ds : List Char} (h : AllAscii ds) : ∀ c ∈ ds, isBlank c = false :=
  fun c hc => isBlank_of_ascii (h c hc)

theorem spelled_append (ds es : List Char) :
    spelled (ds ++ es) = Nat.pow 10 es.length * spelled ds + spelled es := by
  rw [spelled, Nat.ofDigitChars_append, Nat.ofDigitChars_eq_ofDigitChars_zero]
  rfl

theorem spelled_zeros (k : Nat) : spelled (List.replicate k '0') = 0 :=
  Nat.ofDigitChars_replicate_zero

theorem number_filterMap {ds : List Char} (h : AllAscii ds) :
    number (ds.filterMap digit?) = spelled ds := by
  have hmap : ds.filterMap digit? = ds.map fun c => c.toNat - '0'.toNat := by
    induction ds with
    | nil => rfl
    | cons d ds ih =>
      obtain ⟨hd, hds⟩ := List.forall_mem_cons.mp h
      rw [List.filterMap_cons_some (digit?_of_isDigit hd), ih hds, List.map_cons]
  rw [hmap, number, List.foldl_map, spelled, Nat.ofDigitChars_eq_foldl]

theorem length_filterMap {ds : List Char} (h : ∀ c ∈ ds, isDigit c = true) :
    (ds.filterMap digit?).length = ds.length := by
  rw [List.filterMap_length_eq_length]
  exact h

theorem digit?_lt {c : Char} {d : Nat} (h : digit? c = some d) : d < 10 := by
  have hzero : '0'.toNat = 48 := rfl
  have hnine : '9'.toNat = 57 := rfl
  unfold digit? at h
  split at h
  · cases h
    omega
  split at h
  · cases h
  · obtain ⟨first, hfind, hd⟩ := Option.map_eq_some_iff.mp h
    have hrun : first ≤ c.toNat ∧ c.toNat < first + 10 := by simpa using List.find?_some hfind
    omega

/-- No script has a digit among the blanks. -/
theorem isDigit_of_isBlank {c : Char} (h : isBlank c = true) : isDigit c = false := by
  have hscripts : ∀ n ∈ [0x85, 0xA0, 0x1680, 0x2000, 0x2001, 0x2002, 0x2003, 0x2004, 0x2005, 0x2006,
      0x2007, 0x2008, 0x2009, 0x200A, 0x2028, 0x2029, 0x202F, 0x205F, 0x3000],
      (scriptZeros.find? fun z => z ≤ n && n < z + 10) = none := by decide
  have hzero : '0'.toNat = 48 := rfl
  have hnine : '9'.toNat = 57 := rfl
  unfold isBlank at h
  simp only [Bool.or_eq_true, Bool.and_eq_true, decide_eq_true_eq, beq_iff_eq] at h
  unfold isDigit digit?
  rw [if_neg (by omega)]
  split
  · rfl
  · rw [hscripts c.toNat (by simp; omega)]
    rfl

/-- Digits read behind a number move it up and are added to it. -/
theorem foldl_number (ds : List Nat) (n : Nat) :
    ds.foldl (fun n d => 10 * n + d) n = n * Nat.pow 10 ds.length + number ds := by
  unfold number
  induction ds generalizing n with
  | nil => exact (Nat.mul_one n).symm
  | cons d ds ih =>
    have hpow : n * Nat.pow 10 (ds.length + 1) = 10 * n * Nat.pow 10 ds.length := by
      rw [Nat.mul_comm 10 n, Nat.mul_assoc, Nat.mul_comm 10]
      rfl
    rw [List.foldl_cons, ih, List.foldl_cons, ih (10 * 0 + d), List.length_cons, hpow,
      Nat.mul_zero, Nat.zero_add, Nat.add_mul, Nat.add_assoc]

theorem number_append (ds es : List Nat) :
    number (ds ++ es) = number ds * Nat.pow 10 es.length + number es := by
  rw [number, List.foldl_append, foldl_number]
  rfl

/-- Digits spell a number below the power of ten that has one digit more. -/
theorem number_lt {ds : List Nat} (h : ∀ d ∈ ds, d < 10) : number ds < Nat.pow 10 ds.length := by
  induction ds with
  | nil => decide
  | cons d ds ih =>
    obtain ⟨hd, hds⟩ := List.forall_mem_cons.mp h
    have hrest := ih hds
    have hhead : number [d] = d := Nat.zero_add d
    calc number (d :: ds) = d * Nat.pow 10 ds.length + number ds := by
          rw [← List.singleton_append, number_append, hhead]
      _ < d * Nat.pow 10 ds.length + Nat.pow 10 ds.length := Nat.add_lt_add_left hrest _
      _ = (d + 1) * Nat.pow 10 ds.length := (Nat.succ_mul _ _).symm
      _ ≤ 10 * Nat.pow 10 ds.length := Nat.mul_le_mul_right _ hd
      _ = Nat.pow 10 (ds.length + 1) := Nat.mul_comm _ _

theorem digit?_lt_of_mem {cs : List Char} : ∀ d ∈ cs.filterMap digit?, d < 10 := by
  intro d hd
  obtain ⟨c, -, hc⟩ := List.mem_filterMap.mp hd
  exact digit?_lt hc

theorem number_spanDigits_lt (cs : List Char) :
    number (spanDigits cs).1 < Nat.pow 10 (spanDigits cs).1.length :=
  number_lt digit?_lt_of_mem

theorem length_spanDigits_le (cs : List Char) : (spanDigits cs).1.length ≤ cs.length :=
  Nat.le_trans (List.length_filterMap_le _ _) (List.takeWhile_prefix _).length_le

/-- What passes a test is spanned up to the first element that does not. -/
theorem span_append {α : Type} {p : α → Bool} {xs rest : List α} (hxs : ∀ x ∈ xs, p x = true)
    (hrest : rest.head?.any p = false) :
    (xs ++ rest).takeWhile p = xs ∧ (xs ++ rest).dropWhile p = rest := by
  have hstop : rest.takeWhile p = [] ∧ rest.dropWhile p = rest := by
    cases rest with
    | nil => exact ⟨rfl, rfl⟩
    | cons x rest =>
      have hx : p x = false := hrest
      exact ⟨List.takeWhile_cons_of_neg (by rw [hx]; decide),
        List.dropWhile_cons_of_neg (by rw [hx]; decide)⟩
  rw [List.takeWhile_append_of_pos hxs, List.dropWhile_append_of_pos hxs, hstop.1, hstop.2,
    List.append_nil]
  exact ⟨rfl, rfl⟩

/-- Digits are spanned up to the first character that is none. -/
theorem spanDigits_append {ds rest : List Char} (hds : ∀ c ∈ ds, isDigit c = true)
    (hrest : rest.head?.any isDigit = false) :
    spanDigits (ds ++ rest) = (ds.filterMap digit?, rest) := by
  obtain ⟨htake, hdrop⟩ := span_append hds hrest
  rw [spanDigits, htake, hdrop]

end Text

open Text

/-! ## Written numbers -/

theorem decimalDigits_ascii (n : Nat) : AllAscii (decimalDigits n) := fun _ hc =>
  Nat.isDigit_of_mem_toDigits (by decide) (by decide) hc

theorem spelled_decimalDigits (n : Nat) : spelled (decimalDigits n) = n :=
  Nat.ofDigitChars_ten_toDigits

theorem decimalDigits_ne_nil (n : Nat) : decimalDigits n ≠ [] := Nat.toDigits_ne_nil

theorem padded_ascii (width n : Nat) : AllAscii (padded width n) :=
  (AllAscii.zeros _).append (decimalDigits_ascii n)

theorem spelled_padded (width n : Nat) : spelled (padded width n) = n := by
  rw [padded, spelled_append, spelled_zeros, spelled_decimalDigits, Nat.mul_zero, Nat.zero_add]

theorem length_padded {width n : Nat} (hwidth : 0 < width) (h : n < Nat.pow 10 width) :
    (padded width n).length = width := by
  have hlen : (decimalDigits n).length ≤ width :=
    (Nat.length_toDigits_le_iff (by decide) hwidth).mpr h
  rw [padded, List.length_append, List.length_replicate, Nat.sub_add_cancel hlen]

theorem padded_ne_nil (width n : Nat) : padded width n ≠ [] :=
  List.append_ne_nil_of_right_ne_nil _ (decimalDigits_ne_nil n)

end Columnar
