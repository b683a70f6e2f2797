import Columnar.Proofs.Document.Segments
import Columnar.Proofs.Text.Utf8
import Mathlib.Data.List.DropRight

/-!
# Cutting bytes and cutting text

Bytes are cut into segments before they are decoded, so the rule for separator lines is applied to
bytes. On the bytes of a text this is the rule for text with one difference: behind the hyphens only
the blanks of ASCII are dropped. Main statement: the segments of a text's bytes are those of the
text exactly if no separator line of the text has another blank.
-/

namespace Columnar.Text

open Utf8 (encode)

/-! ## Lines of bytes -/

theorem encode_unlines (ls : List (List Char)) :
    encode (unlines ls) = [0x0A].intercalate (ls.map encode) := by
  induction ls with
  | nil => rfl
  | cons l ls ih =>
    cases ls with
    | nil => simp [unlines]
    | cons m ls =>
      have hfeed : String.utf8EncodeChar '\n' = [0x0A] := rfl
      rw [unlines_cons_cons, Utf8.encode_append, Utf8.encode_cons, ih, hfeed]
      simp [List.intercalate_cons_cons]

/-- The lines of a text's bytes are the bytes of its lines. -/
theorem splitOn_encode (cs : List Char) :
    (encode cs).splitOn (0x0A : UInt8) = (lines cs).map encode := by
  have hlines : ∀ l ∈ (lines cs).map encode, (0x0A : UInt8) ∉ l := by
    intro l hl
    obtain ⟨m, hm, rfl⟩ := List.mem_map.mp hl
    intro hfeed
    exact not_mem_of_mem_lines hm ((Utf8.mem_encode_iff (a := '\n') (by decide)).mp hfeed)
  have hne : (lines cs).map encode ≠ [] := by simp [lines_ne_nil]
  calc (encode cs).splitOn (0x0A : UInt8)
      = (encode (unlines (lines cs))).splitOn 0x0A := by rw [unlines_lines]
    _ = ([0x0A].intercalate ((lines cs).map encode)).splitOn 0x0A := by rw [encode_unlines]
    _ = (lines cs).map encode := List.splitOn_intercalate 0x0A hlines hne

section Breaks

variable {α : Type} [DecidableEq α] {cr lf : α}

theorem unifyBreaks_cons_of_ne {x : α} (h : x ≠ cr) (xs : List α) :
    unifyBreaks cr lf (x :: xs) = x :: unifyBreaks cr lf xs := by
  cases xs with
  | nil => rfl
  | cons y xs => rw [unifyBreaks, if_neg fun hxy => h hxy.1]

/-- In front of the first carriage return nothing is replaced. -/
theorem unifyBreaks_append_of_not_mem {front : List α} (h : cr ∉ front) (xs : List α) :
    unifyBreaks cr lf (front ++ xs) = front ++ unifyBreaks cr lf xs := by
  induction front with
  | nil => rfl
  | cons x front ih =>
    have hx : x ≠ cr := fun hx => h (hx ▸ List.mem_cons_self)
    have hfront : cr ∉ front := fun hmem => h (List.mem_cons_of_mem x hmem)
    rw [List.cons_append, unifyBreaks_cons_of_ne hx, ih hfront, List.cons_append]

end Breaks

/-- Line breaks are unified in a text's bytes as in the text. -/
theorem unifyBreaks_encode (cs : List Char) :
    unifyBreaks 0x0D 0x0A (encode cs) = encode (unifyBreaks '\r' '\n' cs) := by
  have hreturn : String.utf8EncodeChar '\r' = [0x0D] := rfl
  have hfeed : String.utf8EncodeChar '\n' = [0x0A] := rfl
  have hother {x : Char} (hx : x ≠ '\r') : (0x0D : UInt8) ∉ String.utf8EncodeChar x := by
    intro hmem
    exact hx ((Utf8.mem_encodeChar_iff (a := '\r') (by decide)).mp hmem).symm
  fun_induction unifyBreaks '\r' '\n' cs with
  | case1 => rfl
  | case2 x =>
    by_cases hx : x = '\r'
    · subst hx
      rfl
    · rw [Utf8.encode_cons, unifyBreaks_append_of_not_mem (hother hx)]
      rfl
  | case3 x y rest hxy ih =>
    obtain ⟨rfl, rfl⟩ := hxy
    rw [Utf8.encode_cons, Utf8.encode_cons, Utf8.encode_cons, hreturn, hfeed, ← ih]
    rfl
  | case4 x y rest hxy ih =>
    rw [Utf8.encode_cons x (y :: rest), Utf8.encode_cons x (unifyBreaks _ _ _), ← ih]
    by_cases hx : x = '\r'
    · -- A return in front of another character than a line feed, whose first byte is no line feed.
      subst hx
      have hy : (0x0A : UInt8) ∉ String.utf8EncodeChar y := by
        intro hmem
        exact hxy ⟨rfl, ((Utf8.mem_encodeChar_iff (a := '\n') (by decide)).mp hmem).symm⟩
      obtain ⟨first, tail, hwrites⟩ := Utf8.exists_writes y
      have hfirst : first ≠ 0x0A := by
        rintro rfl
        rw [hwrites.bytes] at hy
        exact hy List.mem_cons_self
      rw [hreturn, Utf8.encode_cons, hwrites.bytes, List.singleton_append, List.singleton_append,
        List.cons_append, unifyBreaks, if_neg fun h => hfirst h.2]
    · exact unifyBreaks_append_of_not_mem (hother hx) _

/-! ## Blanks at the end -/

/-- A blank of ASCII, the information separators not among them. -/
def isAsciiBlank (c : Char) : Bool := (0x09 ≤ c.toNat && c.toNat ≤ 0x0D) || c.toNat == 0x20

theorem isAsciiBlank_iff {c : Char} :
    isAsciiBlank c = true ↔ 0x09 ≤ c.toNat ∧ c.toNat ≤ 0x0D ∨ c.toNat = 0x20 := by
  simp only [isAsciiBlank, Bool.or_eq_true, Bool.and_eq_true, decide_eq_true_eq, beq_iff_eq]

theorem isBlankByte_iff {b : UInt8} :
    isBlankByte b = true ↔ 0x09 ≤ b.toNat ∧ b.toNat ≤ 0x0D ∨ b.toNat = 0x20 := by
  simp only [isBlankByte, Bool.or_eq_true, Bool.and_eq_true, decide_eq_true_eq, beq_iff_eq,
    UInt8.le_iff_toNat_le, ← UInt8.toNat_inj]
  rfl

theorem isBlank_of_isAsciiBlank {c : Char} (h : isAsciiBlank c = true) : isBlank c = true := by
  rw [isAsciiBlank_iff] at h
  simp only [isBlank, Bool.or_eq_true, Bool.and_eq_true, decide_eq_true_eq, beq_iff_eq]
  omega

theorem isBlankByte_ofNat {c : Char} (h : c.toNat < 0x80) :
    isBlankByte (UInt8.ofNat c.toNat) = isAsciiBlank c := by
  rw [Bool.eq_iff_iff, isBlankByte_iff, isAsciiBlank_iff, Utf8.toNat_ofNat_of_ascii h]

theorem dropBack_concat {α : Type} (p : α → Bool) (xs : List α) (x : α) :
    dropBack p (xs ++ [x]) = if p x = true then dropBack p xs else xs ++ [x] :=
  List.rdropWhile_concat p xs x

/-- From the end of a text's bytes the blanks of ASCII are dropped. -/
theorem dropBack_encode (cs : List Char) :
    dropBack isBlankByte (encode cs) = encode (dropBack isAsciiBlank cs) := by
  induction cs using List.reverseRecOn with
  | nil => rfl
  | append_singleton cs c ih =>
    have hencode : encode (cs ++ [c]) = encode cs ++ String.utf8EncodeChar c := by
      rw [Utf8.encode_append, Utf8.encode_cons, Utf8.encode_nil, List.append_nil]
    rw [dropBack_concat isAsciiBlank]
    by_cases hc : c.toNat < 0x80
    · rw [hencode, Utf8.encodeChar_of_ascii hc, dropBack_concat, isBlankByte_ofNat hc]
      split
      · exact ih
      · rw [hencode, Utf8.encodeChar_of_ascii hc]
    · -- The last byte of another character is no blank.
      have hblank : ¬ isAsciiBlank c = true := by
        rw [isAsciiBlank_iff]
        omega
      obtain ⟨front, b, hbytes⟩ :=
        (List.eq_nil_or_concat (String.utf8EncodeChar c)).resolve_left String.utf8EncodeChar_ne_nil
      rw [List.concat_eq_append] at hbytes
      have hhigh : 0x80 ≤ b.toNat :=
        Utf8.le_of_mem_encodeChar (Nat.not_lt.mp hc) (hbytes ▸ by simp)
      have hbyte : ¬ isBlankByte b = true := by
        rw [isBlankByte_iff]
        omega
      rw [if_neg hblank, hencode, hbytes, ← List.append_assoc, dropBack_concat, if_neg hbyte]

/-- What is left when the end is dropped, and what was dropped. -/
theorem dropBack_eq_iff {α : Type} {p : α → Bool} {kept : List α} (h : dropBack p kept = kept)
    (xs : List α) : dropBack p xs = kept ↔ ∃ back, xs = kept ++ back ∧ ∀ x ∈ back, p x = true := by
  constructor
  · rintro rfl
    exact dropBack_append p xs
  · rintro ⟨back, rfl, hback⟩
    have hreverse : ∀ x ∈ back.reverse, p x = true := fun x hx => hback x (List.mem_reverse.mp hx)
    rw [dropBack, List.reverse_append, List.dropWhile_append_of_pos hreverse]
    exact h

end Columnar.Text

namespace Columnar.Document

open Text
open Utf8 (encode)

/-! ## Separator lines -/

theorem isSeparator_iff (l : List Char) :
    isSeparator l = true ↔ ∃ back, l = separator ++ back ∧ ∀ c ∈ back, isBlank c = true := by
  rw [isSeparator, beq_iff_eq]
  exact dropBack_eq_iff (by decide) l

/-- Three hyphens with nothing but blanks of ASCII behind. -/
def isAsciiSeparator (l : List Char) : Bool := dropBack isAsciiBlank l == separator

/-- A line is a separator among bytes if it is one whose blanks are all of ASCII. -/
theorem isAsciiSeparator_iff (l : List Char) :
    isAsciiSeparator l = true ↔
      isSeparator l = true ∧ ∀ c ∈ l, isBlank c = true → isAsciiBlank c = true := by
  rw [isAsciiSeparator, beq_iff_eq, dropBack_eq_iff (by decide) l, isSeparator_iff]
  constructor
  · rintro ⟨back, rfl, hback⟩
    refine ⟨⟨back, rfl, fun c hc => isBlank_of_isAsciiBlank (hback c hc)⟩, fun c hc hblank => ?_⟩
    rcases List.mem_append.mp hc with hc | hc
    · have hhyphen : c = '-' := by simpa [separator] using hc
      subst hhyphen
      cases hblank
    · exact hback c hc
  · rintro ⟨⟨back, rfl, hback⟩, hascii⟩
    exact ⟨back, rfl, fun c hc => hascii c (List.mem_append_right _ hc) (hback c hc)⟩

theorem isSeparatorBytes_encode (l : List Char) :
    isSeparatorBytes (encode l) = isAsciiSeparator l := by
  have hhyphens : encode separator = [0x2D, 0x2D, 0x2D] := rfl
  rw [isSeparatorBytes, dropBack_encode, ← hhyphens, isAsciiSeparator, Bool.eq_iff_iff, beq_iff_eq,
    beq_iff_eq]
  exact ⟨Utf8.encode_injective, congrArg encode⟩

/-! ## Groups of lines -/

section Groups

variable {α β : Type}

theorem splitOnP_congr {p q : α → Bool} {ls : List α} (h : ∀ l ∈ ls, p l = q l) :
    ls.splitOnP p = ls.splitOnP q := by
  induction ls with
  | nil => rfl
  | cons l ls ih =>
    rw [List.splitOnP_cons_eq_if_modifyHead, List.splitOnP_cons_eq_if_modifyHead,
      h l List.mem_cons_self, ih fun m hm => h m (List.mem_cons_of_mem l hm)]

theorem splitOnP_map (f : α → β) (p : β → Bool) (ls : List α) :
    (ls.map f).splitOnP p = (ls.splitOnP (p ∘ f)).map (List.map f) := by
  induction ls with
  | nil => rfl
  | cons l ls ih =>
    rw [List.map_cons, List.splitOnP_cons_eq_if_modifyHead, List.splitOnP_cons_eq_if_modifyHead, ih]
    cases hl : p (f l) with
    | true => simp [hl]
    | false =>
      obtain ⟨g, gs, hgroups⟩ := List.exists_cons_of_ne_nil (List.splitOnP_ne_nil (p ∘ f) ls)
      simp [hl, hgroups]

variable {p q : List α → Bool} {ls : List (List α)}

theorem groupLines_congr (h : ∀ l ∈ ls, p l = q l) : groupLines p ls = groupLines q ls := by
  have hhead : ls.head?.any p = ls.head?.any q := by
    cases ls with
    | nil => rfl
    | cons l ls => exact h l List.mem_cons_self
  rw [groupLines, groupLines, splitOnP_congr h, hhead]

theorem groupLines_map (f : List α → List β) (p : List β → Bool) (ls : List (List α)) :
    groupLines p (ls.map f) = (groupLines (p ∘ f) ls).map (List.map f) := by
  have hhead : (ls.map f).head?.any p = ls.head?.any (p ∘ f) := by cases ls <;> rfl
  unfold groupLines
  rw [splitOnP_map, hhead]
  split
  · exact (List.map_drop ..).symm
  · rfl

/-- Grouping loses the separator lines and nothing else: the group that a leading separator line
would leave empty holds no line. -/
theorem flatten_groupLines (p : List α → Bool) (ls : List (List α)) :
    (groupLines p ls).flatten = ls.filter fun l => !p l := by
  rw [← flatten_splitOnP]
  unfold groupLines
  split
  · rename_i hhead
    cases ls with
    | nil => cases hhead
    | cons l ls =>
      have hl : p l = true := hhead
      simp [List.splitOnP_cons_eq_if_modifyHead, hl]
  · rfl

end Groups

/-! ## Segments of bytes -/

/-- The bytes of texts decode to the texts. -/
theorem decodeEach_encode (n : Nat) (texts : List (List Char)) :
    decodeEach n (texts.map encode) = pure texts := by
  induction texts generalizing n with
  | nil => rfl
  | cons t texts ih =>
    rw [List.map_cons, decodeEach, Utf8.decode_encode]
    simp only [ih]
    rfl

/-- The segments of a text, cut at the separator lines that are separators among bytes. -/
def asciiSegments (cs : List Char) : List (List Char) :=
  (groupLines isAsciiSeparator (lines cs)).map unlines

theorem byteSegments_encode (cs : List Char) :
    byteSegments (encode cs) = (asciiSegments (unifyBreaks '\r' '\n' cs)).map encode := by
  have hseparators : isSeparatorBytes ∘ encode = isAsciiSeparator := funext isSeparatorBytes_encode
  have hunlines : [0x0A].intercalate ∘ List.map encode = encode ∘ unlines :=
    funext fun ls => (encode_unlines ls).symm
  simp only [byteSegments, asciiSegments]
  rw [unifyBreaks_encode, splitOn_encode, groupLines_map, hseparators, List.map_map, List.map_map,
    hunlines]

/-- The segments of a text's bytes all decode. -/
theorem decodedSegments_encode (cs : List Char) :
    decodedSegments (encode cs) = pure (asciiSegments (unifyBreaks '\r' '\n' cs)) := by
  rw [decodedSegments, byteSegments_encode, decodeEach_encode]

/-- The lines of a group are the lines of a text that are no separators. -/
theorem mem_of_mem_group {p : List Char → Bool} {cs l : List Char} {g : List (List Char)}
    (hg : g ∈ groupLines p (lines cs)) (hl : l ∈ g) : l ∈ lines cs ∧ p l = false := by
  have hflat : l ∈ (groupLines p (lines cs)).flatten := List.mem_flatten_of_mem hg hl
  rw [flatten_groupLines, List.mem_filter, Bool.not_eq_true'] at hflat
  exact hflat

theorem exists_group {p : List Char → Bool} {cs l : List Char} (hl : l ∈ lines cs)
    (h : p l = false) : ∃ g ∈ groupLines p (lines cs), l ∈ g := by
  have hflat : l ∈ (groupLines p (lines cs)).flatten := by
    rw [flatten_groupLines, List.mem_filter, h]
    exact ⟨hl, rfl⟩
  exact List.mem_flatten.mp hflat

/-- A group of lines is what the text that joins it splits into. -/
theorem lines_unlines_group {p : List Char → Bool} {cs : List Char} {g : List (List Char)}
    (hg : g ∈ groupLines p (lines cs)) (hne : g ≠ []) : lines (unlines g) = g :=
  lines_unlines_of_mem (fun _ hl => (mem_of_mem_group hg hl).1) hne

theorem isUncut_of_mem_segments {cs s : List Char} (h : s ∈ segments cs) : IsUncut s := by
  obtain ⟨g, hg, rfl⟩ := List.mem_map.mp h
  by_cases hne : g = []
  · subst hne
    intro l hl
    obtain rfl : l = [] := by simpa [unlines, lines] using hl
    decide
  · intro l hl
    rw [lines_unlines_group hg hne] at hl
    exact (mem_of_mem_group hg hl).2

/-- The two ways to cut agree on a text exactly if they agree on its lines. -/
theorem asciiSegments_eq_iff (cs : List Char) :
    asciiSegments cs = segments cs ↔ ∀ l ∈ lines cs, isAsciiSeparator l = isSeparator l := by
  constructor
  · intro heq l hl
    cases hascii : isAsciiSeparator l with
    | true => exact ((isAsciiSeparator_iff l).mp hascii).1.symm
    | false =>
      -- The line stands in a segment of the text, so it is no separator there either.
      obtain ⟨g, hg, hlg⟩ := exists_group hl hascii
      have hsegment : unlines g ∈ segments cs := heq ▸ List.mem_map_of_mem hg
      have hline : l ∈ lines (unlines g) := by
        rwa [lines_unlines_group hg (List.ne_nil_of_mem hlg)]
      exact (isUncut_of_mem_segments hsegment l hline).symm
  · intro h
    rw [asciiSegments, segments, groupLines_congr h]

/-- The bytes of a text are always cut into segments that all decode. They are cut at the separator
lines of the text, with line breaks unified, that have no blank outside ASCII. So the segments are
those of the text exactly if none of its separator lines has such a blank. -/
theorem byte_segments_are_text_segments_iff (text : String) :
    decodedSegments text.toUTF8.data.toList =
        pure (asciiSegments (unifyBreaks '\r' '\n' text.toList)) ∧
      ((decodedSegments text.toUTF8.data.toList).result =
          segments (unifyBreaks '\r' '\n' text.toList) ↔
        ∀ l ∈ lines (unifyBreaks '\r' '\n' text.toList), isSeparator l = true →
          ∀ c ∈ l, isBlank c = true → isAsciiBlank c = true) := by
  have hdecoded : decodedSegments text.toUTF8.data.toList =
      pure (asciiSegments (unifyBreaks '\r' '\n' text.toList)) := by
    rw [← Utf8.encode_toList, decodedSegments_encode]
  have hresult : (decodedSegments text.toUTF8.data.toList).result =
      asciiSegments (unifyBreaks '\r' '\n' text.toList) := by rw [hdecoded]; rfl
  refine ⟨hdecoded, ?_⟩
  rw [hresult, asciiSegments_eq_iff]
  refine forall₂_congr fun l _ => ?_
  constructor
  · intro hsame hseparator
    exact ((isAsciiSeparator_iff l).mp (hsame.trans hseparator)).2
  · intro hascii
    rw [Bool.eq_iff_iff, isAsciiSeparator_iff]
    exact ⟨And.left, fun hseparator => ⟨hseparator, hascii hseparator⟩⟩

/-- A separator line with the next line control behind the hyphens cuts the text, not its bytes. -/
theorem next_line_hides_separator :
    (decodedSegments "a\n---\u0085\nb".toUTF8.data.toList).result = ["a\n---\u0085\nb".toList] ∧
      segments (unifyBreaks '\r' '\n' "a\n---\u0085\nb".toList) = [['a'], ['b']] := by
  decide +kernel

end Columnar.Document
