import Columnar.Document.FrontMatter
import Columnar.Proofs.Document.Segments

/-!
# Front matter set off from a body

A separator on the first line opens a block, and the first closer behind it ends the block. With
line breaks unified, the text is the opening line, the lines of the block, the closing line and the
lines of the body, so nothing is lost; a text without a block is all body and keeps its line breaks.
In the other direction, a block without closers is read back from between two separators. Main
statement: `front_matter_ends_at_first_closer`.

What is read is compared line by line. As a text, a block of no line cannot be told from one of a
single empty line, and neither can a body.
-/

namespace Columnar.Text

/-- A line feed at the end completes a break of two characters only behind a carriage return. -/
theorem not_infix_concat {s : List Char} (h : ¬ ['\r', '\n'] <:+: s)
    (hlast : s.getLast? ≠ some '\r') : ¬ ['\r', '\n'] <:+: s ++ ['\n'] := by
  intro hbreak
  rcases List.infix_concat_iff.mp hbreak with hsuffix | hinfix
  · rcases List.suffix_concat_iff.mp hsuffix with hnil | ⟨t, ht, hreturn⟩
    · cases hnil
    · obtain rfl : t = ['\r'] := List.append_cancel_right ht.symm
      exact hlast (List.singleton_suffix_iff_getLast?_eq_some.mp hreturn)
  · exact h hinfix

end Columnar.Text

namespace Columnar.Document

open Text

/-! ## The first closer -/

theorem exists_first_closer {ls : List (List Char)} (h : ∃ l ∈ ls, isCloser l = true) :
    ∃ block closer body, ls = block ++ closer :: body ∧ (∀ l ∈ block, isCloser l = false) ∧
      isCloser closer = true := by
  obtain ⟨closer, hfind⟩ := Option.isSome_iff_exists.mp (List.find?_isSome.mpr h)
  obtain ⟨hclose, block, body, hls, hblock⟩ := List.find?_eq_some_iff_append.mp hfind
  refine ⟨block, closer, body, hls, ?_, hclose⟩
  intro l hl
  exact Bool.not_eq_true' _ ▸ hblock l hl

/-- The search ends at a closer and passes over every other line. -/
theorem spanCloser_cons (l : List Char) (ls : List (List Char)) :
    spanCloser (l :: ls) =
      if isCloser l then some ([], ls) else (spanCloser ls).map fun s => (l :: s.1, s.2) := by
  unfold spanCloser
  cases hl : isCloser l with
  | true => simp [hl]
  | false => cases hrest : ls.dropWhile fun l => !isCloser l <;> simp [hl, hrest]

theorem spanCloser_eq_none {ls : List (List Char)} (h : ∀ l ∈ ls, isCloser l = false) :
    spanCloser ls = none := by
  induction ls with
  | nil => rfl
  | cons l rest ih =>
    rw [List.forall_mem_cons] at h
    rw [spanCloser_cons, if_neg (Bool.eq_false_iff.mp h.1), ih h.2, Option.map_none]

theorem spanCloser_append {block body : List (List Char)} {closer : List Char}
    (hblock : ∀ l ∈ block, isCloser l = false) (hclose : isCloser closer = true) :
    spanCloser (block ++ closer :: body) = some (block, body) := by
  induction block with
  | nil => rw [List.nil_append, spanCloser_cons, if_pos hclose]
  | cons l rest ih =>
    rw [List.forall_mem_cons] at hblock
    rw [List.cons_append, spanCloser_cons, if_neg (Bool.eq_false_iff.mp hblock.1), ih hblock.2,
      Option.map_some]

/-! ## Reading -/

section Reading

variable {text opener closer : List Char} {rest block body : List (List Char)}

theorem ofText_of_closed
    (hlines : lines (unifyBreaks '\r' '\n' text) = opener :: (block ++ closer :: body))
    (hopen : isSeparator opener = true) (hblock : ∀ l ∈ block, isCloser l = false)
    (hclose : isCloser closer = true) :
    FrontMatter.ofText text = ⟨unlines block, unlines body⟩ := by
  have hspan : spanCloser (block ++ closer :: body) = some (block, body) :=
    spanCloser_append hblock hclose
  unfold FrontMatter.ofText
  rw [hlines]
  dsimp only
  rw [if_pos hopen, hspan]

/-- A text without a block is all body, as it stands. -/
theorem ofText_of_not_closed (hlines : lines (unifyBreaks '\r' '\n' text) = opener :: rest)
    (h : isSeparator opener = false ∨ ∀ l ∈ rest, isCloser l = false) :
    FrontMatter.ofText text = ⟨[], text⟩ := by
  unfold FrontMatter.ofText
  rw [hlines]
  dsimp only
  rcases h with hplain | hnone
  · rw [if_neg (Bool.eq_false_iff.mp hplain)]
  · rw [spanCloser_eq_none hnone]
    split <;> rfl

end Reading

/-! ## Writing -/

/-- The text that sets a block off from a body by two separator lines. -/
def FrontMatter.text (front : FrontMatter) : List Char :=
  separator ++ '\n' :: (front.block ++ '\n' :: (separator ++ '\n' :: front.body))

theorem FrontMatter.unifyBreaks_text {front : FrontMatter}
    (hblock : ¬ ['\r', '\n'] <:+: front.block) (hlast : front.block.getLast? ≠ some '\r')
    (hbody : ¬ ['\r', '\n'] <:+: front.body) :
    unifyBreaks '\r' '\n' front.text = front.text := by
  have hseparator : unifyBreaks '\r' '\n' (separator ++ ['\n']) = separator ++ ['\n'] := rfl
  have hline : unifyBreaks '\r' '\n' (front.block ++ ['\n']) = front.block ++ ['\n'] :=
    unifyBreaks_of_not_infix (not_infix_concat hblock hlast)
  rw [FrontMatter.text, unifyBreaks_append separator, hseparator,
    unifyBreaks_append front.block, hline, unifyBreaks_append separator, hseparator,
    unifyBreaks_of_not_infix hbody]
  simp

theorem FrontMatter.lines_text (front : FrontMatter) :
    lines front.text = separator :: (lines front.block ++ separator :: lines front.body) := by
  rw [FrontMatter.text, lines_append, lines_append, lines_append, lines_separator]
  rfl

/-- **Front matter ends at the first closer.** A text, its line breaks unified, starts with some
line. If that is no separator, or no line behind it is a closer, the text has no front matter and is
all body, as it stands. Otherwise the lines behind it up to the first closer make the block and
those behind the closer the body, and they are the lines of the two texts read, unless there are
none. A block without closers is read back with its body from the text that sets them off by
separators, if neither has a break of two characters and none arises where the block ends. -/
theorem front_matter_ends_at_first_closer :
    (∀ text : List Char, ∃ opener rest,
      lines (unifyBreaks '\r' '\n' text) = opener :: rest ∧
      (isSeparator opener = false ∨ (∀ l ∈ rest, isCloser l = false) →
        FrontMatter.ofText text = ⟨[], text⟩) ∧
      (isSeparator opener = true → (∃ l ∈ rest, isCloser l = true) →
        ∃ block closer body, rest = block ++ closer :: body ∧
          (∀ l ∈ block, isCloser l = false) ∧ isCloser closer = true ∧
          FrontMatter.ofText text = ⟨unlines block, unlines body⟩ ∧
          (block ≠ [] → lines (unlines block) = block) ∧
          (body ≠ [] → lines (unlines body) = body))) ∧
    ∀ front : FrontMatter, (∀ l ∈ lines front.block, isCloser l = false) →
      ¬ ['\r', '\n'] <:+: front.block → front.block.getLast? ≠ some '\r' →
      ¬ ['\r', '\n'] <:+: front.body → FrontMatter.ofText front.text = front := by
  constructor
  · intro text
    obtain ⟨opener, rest, hlines⟩ :=
      List.exists_cons_of_ne_nil (lines_ne_nil (unifyBreaks '\r' '\n' text))
    refine ⟨opener, rest, hlines, ofText_of_not_closed hlines, ?_⟩
    intro hopen hsome
    obtain ⟨block, closer, body, rfl, hblock, hclose⟩ := exists_first_closer hsome
    have hread := ofText_of_closed hlines hopen hblock hclose
    have hmem : ∀ l ∈ block ++ closer :: body, l ∈ lines (unifyBreaks '\r' '\n' text) := by
      intro l hl
      rw [hlines]
      exact List.mem_cons_of_mem _ hl
    refine ⟨block, closer, body, rfl, hblock, hclose, hread, ?_, ?_⟩
    · apply lines_unlines_of_mem
      intro l hl
      exact hmem l (List.mem_append_left _ hl)
    · apply lines_unlines_of_mem
      intro l hl
      exact hmem l (List.mem_append_right _ (List.mem_cons_of_mem _ hl))
  · intro front hcloser hblock hlast hbody
    have hlines := front.lines_text
    rw [← FrontMatter.unifyBreaks_text hblock hlast hbody] at hlines
    rw [ofText_of_closed hlines (by decide) hcloser (by decide), unlines_lines, unlines_lines]

/-- Dots with a blank behind them close a block before a separator does, and an empty line in front
of them belongs to the block; a text that no line closes keeps its break of two characters; and a
block with a carriage return inside a line is read back beside a body that is a separator. -/
theorem front_matter_ends_at_dots :
    FrontMatter.ofText "--- \r\na\r\n\r\n...\t\r\nb\n---".toList =
      ⟨"a\n".toList, "b\n---".toList⟩ ∧
    FrontMatter.ofText "---\r\na".toList = ⟨[], "---\r\na".toList⟩ ∧
    FrontMatter.ofText (FrontMatter.text ⟨"a\r b\n".toList, separator⟩) =
      ⟨"a\r b\n".toList, separator⟩ := by
  refine ⟨?_, ?_, front_matter_ends_at_first_closer.2 _ (by decide) (by decide) (by decide)
    (by decide)⟩
  · obtain ⟨opener, rest, hlines, -, hclosed⟩ :=
      front_matter_ends_at_first_closer.1 "--- \r\na\r\n\r\n...\t\r\nb\n---".toList
    obtain ⟨rfl, rfl⟩ : "--- ".toList = opener ∧
        [['a'], [], "...\t".toList, ['b'], separator] = rest := List.cons.inj hlines
    obtain ⟨block, closer, body, hrest, hblock, hclose, hread, -⟩ :=
      hclosed (by decide) ⟨_, .tail _ (.tail _ (.head _)), by decide⟩
    -- The two lines in front of the dots are no closers, and the dots are one.
    rcases block with _ | ⟨l, _ | ⟨m, _ | ⟨dots, more⟩⟩⟩
    · obtain ⟨rfl, -⟩ := List.cons.inj hrest
      exact absurd hclose (by decide)
    · obtain ⟨-, htail⟩ := List.cons.inj hrest
      obtain ⟨rfl, -⟩ := List.cons.inj htail
      exact absurd hclose (by decide)
    · cases hrest
      exact hread
    · obtain ⟨-, htail⟩ := List.cons.inj hrest
      obtain ⟨-, htail⟩ := List.cons.inj htail
      obtain ⟨rfl, -⟩ := List.cons.inj htail
      exact absurd (hblock _ (.tail _ (.tail _ (.head _)))) (by decide)
  · obtain ⟨opener, rest, hlines, hunclosed, -⟩ :=
      front_matter_ends_at_first_closer.1 "---\r\na".toList
    obtain ⟨-, rfl⟩ : separator = opener ∧ [['a']] = rest := List.cons.inj hlines
    exact hunclosed (Or.inr (by decide))

end Columnar.Document
