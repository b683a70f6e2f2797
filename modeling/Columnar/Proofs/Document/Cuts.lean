import Columnar.Proofs.Document.Bytes

/-!
# Where a text is cut

A text is cut at its separator lines and nowhere else. Joining texts that have no separator line and
cutting the result gives the texts back, whether or not a separator stands in front of them all. In
the other direction every segment of a text is free of separator lines, no other line with something
on it is lost, doubled or moved, and a segment ends exactly where a separator line stands. Lines
with nothing on them are left aside: the segment between two adjacent separators is empty, and an
empty text has one line.
-/

namespace Columnar.Document

open Text

/-! ## Numbered groups -/

section Numbered

variable {α : Type} {p q : α → Bool}

/-- The elements of groups that pass a test, each with the number of its group, from `n` on. -/
def numbered (q : α → Bool) (n : Nat) (groups : List (List α)) : List (α × Nat) :=
  (groups.zipIdx n).flatMap fun e => (e.1.filter q).map fun x => (x, e.2)

theorem numbered_cons (n : Nat) (g : List α) (groups : List (List α)) :
    numbered q n (g :: groups) =
      (g.filter q).map (fun x => (x, n)) ++ numbered q (n + 1) groups := rfl

theorem map_fst_numbered (q : α → Bool) (n : Nat) (groups : List (List α)) :
    (numbered q n groups).map Prod.fst = groups.flatMap (List.filter q) := by
  induction groups generalizing n with
  | nil => rfl
  | cons g rest ih =>
    rw [numbered_cons, List.map_append, ih, List.flatMap_cons, List.map_map]
    exact congrArg (· ++ _) (List.map_id _)

/-- The elements of a list that pass a test, each with its position. -/
def placed (q : α → Bool) (xs : List α) : List (α × Nat) := xs.zipIdx.filter fun e => q e.1

theorem placed_cons (x : α) (xs : List α) :
    placed q (x :: xs) =
      (if q x then [(x, 0)] else []) ++ (placed q xs).map fun e => (e.1, e.2 + 1) := by
  have hrest : xs.zipIdx 1 = xs.zipIdx.map fun e => (e.1, e.2 + 1) := List.zipIdx_succ ..
  unfold placed
  rw [List.zipIdx_cons, hrest, List.filter_cons, List.filter_map]
  split <;> rfl

theorem map_fst_placed (q : α → Bool) (xs : List α) :
    (placed q xs).map Prod.fst = xs.filter q := by
  induction xs with
  | nil => rfl
  | cons x rest ih =>
    rw [placed_cons, List.map_append, List.map_map, List.filter_cons, ← ih]
    split <;> rfl

theorem getElem?_of_placed {m i : Nat} {x : α} {xs : List α}
    (h : (placed q xs)[m]? = some (x, i)) : xs[i]? = some x ∧ q x = true := by
  obtain ⟨hmem, hx⟩ := List.mem_filter.mp (List.mem_of_getElem? h)
  exact ⟨List.mem_zipIdx_iff_getElem?.mp hmem, hx⟩

/-- The number of a group is the number of cuts before it. -/
theorem numbered_splitOnP (hpq : ∀ x, p x = true → q x = false) (n : Nat) (xs : List α) :
    numbered q n (xs.splitOnP p) =
      (placed q xs).map fun e => (e.1, n + (xs.take e.2).countP p) := by
  induction xs generalizing n with
  | nil => rfl
  | cons x rest ih =>
    rw [List.splitOnP_cons_eq_if_modifyHead, placed_cons, List.map_append, List.map_map]
    cases hx : p x with
    | true =>
      have hrest := ih (n + 1)
      rw [if_pos rfl, hpq x hx, numbered_cons, hrest]
      apply List.map_congr_left
      intro e _
      simp only [Function.comp_apply, List.take_succ_cons, List.countP_cons, hx]
      simp only [Prod.mk.injEq, true_and, if_true]
      omega
    | false =>
      have hrest := ih n
      obtain ⟨g, gs, hgroups⟩ := List.exists_cons_of_ne_nil (List.splitOnP_ne_nil p rest)
      rw [hgroups, numbered_cons] at hrest
      have htail : (placed q rest).map ((fun e => (e.1, n + ((x :: rest).take e.2).countP p)) ∘
          fun e => (e.1, e.2 + 1)) =
          (placed q rest).map fun e => (e.1, n + (rest.take e.2).countP p) := by
        apply List.map_congr_left
        intro e _
        simp only [Function.comp_apply, List.take_succ_cons, List.countP_cons, hx]
        rfl
      rw [htail, ← hrest, hgroups]
      show numbered q n ((x :: g) :: gs) = _
      rw [numbered_cons, List.filter_cons]
      split <;> rfl

theorem numbered_map {q' : α → Bool} {f : List α → List α} {groups : List (List α)}
    (h : ∀ g ∈ groups, (f g).filter q = g.filter q') (n : Nat) :
    numbered q n (groups.map f) = numbered q' n groups := by
  induction groups generalizing n with
  | nil => rfl
  | cons g rest ih =>
    obtain ⟨hg, hrest⟩ := List.forall_mem_cons.mp h
    rw [List.map_cons, numbered_cons, numbered_cons, hg, ih hrest]

/-- The cuts before position `j` are those before `i` and those from `i` on, if `i` is no cut. A cut
at the head of the list does not count. -/
theorem countP_tail_take {xs : List α} {x : α} {i j : Nat} (hij : i < j) (hi : xs[i]? = some x)
    (hx : p x = false) :
    (xs.take j).tail.countP p =
      (xs.take i).tail.countP p + ((xs.drop i).take (j - i)).countP p := by
  cases i with
  | zero =>
    obtain ⟨rest, rfl⟩ : ∃ rest, xs = x :: rest := by
      cases xs with
      | nil => cases hi
      | cons y rest => exact ⟨rest, by simpa using hi⟩
    obtain ⟨j, rfl⟩ : ∃ n, j = n + 1 := ⟨j - 1, by omega⟩
    simp [hx]
  | succ i =>
    have hlength : i + 1 < xs.length := (List.getElem?_eq_some_iff.mp hi).1
    have hne : xs.take (i + 1) ≠ [] := by
      apply List.ne_nil_of_length_pos
      rw [List.length_take]
      omega
    have hfront : (xs.take j).take (i + 1) = xs.take (i + 1) := by
      rw [List.take_take, Nat.min_eq_left (by omega)]
    have htake : xs.take j = xs.take (i + 1) ++ (xs.drop (i + 1)).take (j - (i + 1)) := by
      rw [← hfront, ← List.drop_take, List.take_append_drop]
    rw [htake, List.tail_append_of_ne_nil hne, List.countP_append]

/-- There are no cuts from `i` to `j` if there is none at `i` and none between them. -/
theorem countP_drop_take_eq_zero_iff {xs : List α} {x : α} {i j : Nat} (hi : xs[i]? = some x)
    (hx : p x = false) :
    ((xs.drop i).take (j - i)).countP p = 0 ↔
      ∀ k y, i < k → k < j → xs[k]? = some y → p y = false := by
  have hplace {d : Nat} (hd : d < j - i) : ((xs.drop i).take (j - i))[d]? = xs[i + d]? := by
    rw [List.getElem?_take_of_lt hd, List.getElem?_drop]
  rw [List.countP_eq_zero]
  constructor
  · intro h k y hik hkj hk
    have hmem : y ∈ (xs.drop i).take (j - i) := by
      apply List.mem_of_getElem? (i := k - i)
      rw [hplace (by omega), show i + (k - i) = k by omega, hk]
    simpa using h y hmem
  · intro h y hy
    obtain ⟨d, hd⟩ := List.mem_iff_getElem?.mp hy
    have hlt : d < j - i := by
      have hbound := (List.getElem?_eq_some_iff.mp hd).1
      rw [List.length_take] at hbound
      omega
    rw [hplace hlt] at hd
    by_cases hzero : d = 0
    · subst hzero
      obtain rfl : x = y := Option.some.inj (hi.symm.trans hd)
      simp [hx]
    · simpa using h (i + d) y (by omega) (by omega) hd

/-- Two elements have the same number of cuts before them if there is none between them. -/
theorem countP_tail_take_eq_iff {xs : List α} {x : α} {i j : Nat} (hij : i < j)
    (hi : xs[i]? = some x) (hx : p x = false) :
    (xs.take i).tail.countP p = (xs.take j).tail.countP p ↔
      ∀ k y, i < k → k < j → xs[k]? = some y → p y = false := by
  have hsplit := countP_tail_take hij hi hx
  have hnone := countP_drop_take_eq_zero_iff hi hx (j := j)
  rw [hsplit, ← hnone]
  omega

end Numbered

/-- The elements of groups between cuts are numbered by the cuts before them, one at the head
aside. -/
theorem numbered_groupLines {α : Type} {p q : List α → Bool}
    (hpq : ∀ l, p l = true → q l = false) (ls : List (List α)) :
    numbered q 0 (groupLines p ls) =
      (placed q ls).map fun e => (e.1, (ls.take e.2).tail.countP p) := by
  cases ls with
  | nil => rfl
  | cons l rest =>
    cases hl : p l with
    | true =>
      have hgroups : groupLines p (l :: rest) = rest.splitOnP p := by
        simp [groupLines, hl, List.splitOnP_cons_eq_if_modifyHead]
      have hskipped : placed q (l :: rest) = (placed q rest).map fun e => (e.1, e.2 + 1) := by
        rw [placed_cons, hpq l hl]
        rfl
      rw [hgroups, numbered_splitOnP hpq, hskipped, List.map_map]
      apply List.map_congr_left
      intro e _
      show (e.1, 0 + _) = (e.1, _)
      rw [Nat.zero_add]
      rfl
    | false =>
      have hgroups : groupLines p (l :: rest) = (l :: rest).splitOnP p := by
        simp [groupLines, hl]
      rw [hgroups, numbered_splitOnP hpq]
      apply List.map_congr_left
      intro e _
      show (e.1, 0 + _) = (e.1, _)
      rw [Nat.zero_add]
      cases e.2 with
      | zero => rfl
      | succ n => simp [hl]

/-! ## Segments -/

/-- Something stands on the line. -/
def isFilled (line : List Char) : Bool := !line.isEmpty

/-- Something stands on the line, and it is no separator. -/
def isContent (line : List Char) : Bool := isFilled line && !isSeparator line

/-- The lines of a text with content, each with its position in the text. -/
def contentLines (text : List Char) : List (List Char × Nat) := placed isContent (lines text)

/-- The lines of texts with something on them, in order, each with the number of its text. -/
def filledLines (texts : List (List Char)) : List (List Char × Nat) :=
  numbered isFilled 0 (texts.map lines)

theorem isContent_of_isSeparator {l : List Char} (h : isSeparator l = true) :
    isContent l = false := by
  rw [isContent, h]
  exact Bool.and_false _

/-- The filled lines of a segment are those of its group. -/
theorem filter_lines_unlines {text : List Char} {g : List (List Char)}
    (hg : g ∈ groupLines isSeparator (lines text)) :
    (lines (unlines g)).filter isFilled = g.filter isContent := by
  by_cases hne : g = []
  · subst hne
    rfl
  · rw [lines_unlines_group hg hne]
    apply List.filter_congr
    intro l hl
    rw [isContent, (mem_of_mem_group hg hl).2]
    exact (Bool.and_true _).symm

/-- The filled lines of the segments are the content of the text, numbered by the separators before
it. -/
theorem filledLines_segments (text : List Char) :
    filledLines (segments text) = (contentLines text).map fun e =>
      (e.1, ((lines text).take e.2).tail.countP isSeparator) := by
  have hgroups : filledLines (segments text) =
      numbered isContent 0 (groupLines isSeparator (lines text)) := by
    unfold filledLines segments
    rw [List.map_map]
    exact numbered_map (fun g hg => filter_lines_unlines hg) 0
  rw [hgroups]
  exact numbered_groupLines (fun l hl => isContent_of_isSeparator hl) (lines text)

/-! ## Joined texts -/

/-- Texts joined with a separator line between each two are a stream. -/
theorem intercalate_separator (texts : List (List Char)) :
    "\n---\n".toList.intercalate texts = streamOf texts := by
  induction texts with
  | nil => rfl
  | cons s rest ih =>
    cases rest with
    | nil => simp [streamOf, unlines]
    | cons t rest =>
      rw [List.intercalate_cons_cons, ih, streamOf_cons_cons]
      simp [separator]

/-- A separator in front of a stream starts its first text. -/
theorem segments_separator_streamOf {texts : List (List Char)} (hne : texts ≠ [])
    (h : ∀ s ∈ texts, IsUncut s) : segments (separator ++ '\n' :: streamOf texts) = texts := by
  have hlines : lines (separator ++ '\n' :: streamOf texts) =
      separator :: lines (streamOf texts) := by
    rw [lines_append, lines_separator, List.singleton_append]
  have hgroups : groupLines isSeparator (separator :: lines (streamOf texts)) =
      (lines (streamOf texts)).splitOnP isSeparator := by
    rw [groupLines, List.splitOnP_cons_eq_if_modifyHead]
    rfl
  unfold segments
  rw [hlines, hgroups, groups_streamOf hne h, List.map_map]
  exact (List.map_congr_left fun s _ => unlines_lines s).trans (List.map_id _)

/-- **Texts are cut exactly at their separator lines.** Texts without separator lines are the
segments of what joins them by separator lines, also if one stands in front. The segments of any
text have no separator line; their filled lines are the content of the text, in order; and of two
lines with content, the one at position `i` and the other behind it at `j`, both stand in the same
segment if and only if no line between them is a separator. -/
theorem texts_are_cut_at_separators :
    (∀ texts, texts ≠ [] → (∀ s ∈ texts, IsUncut s) →
      segments ("\n---\n".toList.intercalate texts) = texts ∧
      segments ("---\n".toList ++ "\n---\n".toList.intercalate texts) = texts) ∧
    ∀ text,
      (∀ s ∈ segments text, IsUncut s) ∧
      ((segments text).flatMap fun s => (lines s).filter isFilled) =
        (lines text).filter isContent ∧
      ∀ (m n i j : Nat) (x y : List Char),
        (contentLines text)[m]? = some (x, i) → (contentLines text)[n]? = some (y, j) → i < j →
        ∃ a b, (filledLines (segments text))[m]? = some (x, a) ∧
          (filledLines (segments text))[n]? = some (y, b) ∧
          (a = b ↔
            ∀ (k : Nat) l, i < k → k < j → (lines text)[k]? = some l → isSeparator l = false) := by
  refine ⟨?_, ?_⟩
  · intro texts hne h
    rw [intercalate_separator]
    exact ⟨segments_streamOf hne h, segments_separator_streamOf hne h⟩
  · intro text
    have hnumbered := filledLines_segments text
    refine ⟨fun s hs => isUncut_of_mem_segments hs, ?_, ?_⟩
    · have hfilled : (filledLines (segments text)).map Prod.fst =
          (segments text).flatMap fun s => (lines s).filter isFilled := by
        rw [filledLines, map_fst_numbered, List.flatMap_map]
      rw [← hfilled, hnumbered, List.map_map]
      exact map_fst_placed isContent (lines text)
    · intro m n i j x y hm hn hij
      obtain ⟨hi, hx⟩ := getElem?_of_placed hm
      have hplain : isSeparator x = false := by
        cases hsep : isSeparator x with
        | false => rfl
        | true => rw [isContent_of_isSeparator hsep] at hx; cases hx
      refine ⟨_, _, ?_, ?_, countP_tail_take_eq_iff hij hi hplain⟩
      · rw [hnumbered, List.getElem?_map, hm]
        rfl
      · rw [hnumbered, List.getElem?_map, hn]
        rfl

/-- Behind a leading separator, an empty line does not part two lines, and a separator with a blank
behind it does. -/
theorem blank_separator_parts_lines :
    (∀ s ∈ ["a\n\nb".toList, "c".toList], IsUncut s) ∧
    segments "---\na\n\nb\n---\nc".toList = ["a\n\nb".toList, "c".toList] ∧
    (contentLines "---\na\n\nb\n--- \nc".toList)[0]? = some (['a'], 1) ∧
    (contentLines "---\na\n\nb\n--- \nc".toList)[1]? = some (['b'], 3) ∧
    (contentLines "---\na\n\nb\n--- \nc".toList)[2]? = some (['c'], 5) ∧
    ∃ a b c, (filledLines (segments "---\na\n\nb\n--- \nc".toList))[0]? = some (['a'], a) ∧
      (filledLines (segments "---\na\n\nb\n--- \nc".toList))[1]? = some (['b'], b) ∧
      (filledLines (segments "---\na\n\nb\n--- \nc".toList))[2]? = some (['c'], c) ∧
      a = b ∧ b ≠ c := by
  have huncut : ∀ s ∈ ["a\n\nb".toList, "c".toList], IsUncut s := by
    unfold IsUncut
    decide
  have hjoined := (texts_are_cut_at_separators.1 ["a\n\nb".toList, "c".toList] (by simp) huncut).2
  have ha : (contentLines "---\na\n\nb\n--- \nc".toList)[0]? = some (['a'], 1) := by decide
  have hb : (contentLines "---\na\n\nb\n--- \nc".toList)[1]? = some (['b'], 3) := by decide
  have hc : (contentLines "---\na\n\nb\n--- \nc".toList)[2]? = some (['c'], 5) := by decide
  have hparts := (texts_are_cut_at_separators.2 "---\na\n\nb\n--- \nc".toList).2.2
  obtain ⟨a, b, hfa, hfb, hab⟩ := hparts _ _ _ _ _ _ ha hb (by decide)
  obtain ⟨b', c, hfb', hfc, hbc⟩ := hparts _ _ _ _ _ _ hb hc (by decide)
  obtain rfl : b = b' := by
    have hsame := hfb.symm.trans hfb'
    simpa using hsame
  refine ⟨huncut, hjoined, ha, hb, hc, a, b, c, hfa, hfb, hfc, hab.mpr ?_, ?_⟩
  · intro k l hk1 hk3 hl
    obtain rfl : k = 2 := by omega
    obtain rfl : [] = l := Option.some.inj hl
    rfl
  · intro hsame
    have hplain := hbc.mp hsame 4 "--- ".toList (by decide) (by decide) (by decide)
    exact absurd hplain (by decide)

end Columnar.Document
