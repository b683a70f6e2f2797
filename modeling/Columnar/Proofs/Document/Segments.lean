import Columnar.Document.Segments

/-!
# Cutting a joined stream

Texts are joined to a stream with a separator line between each two of them. Where no text has a
separator line itself, the segments of the stream are the texts, with their line breaks unified.
-/

namespace Columnar.Text

/-! ## Lines of joined texts -/

theorem lines_append (s t : List Char) : lines (s ++ '\n' :: t) = lines s ++ lines t :=
  List.splitOnP_append_cons s t (beq_self_eq_true '\n')

theorem lines_of_not_mem {s : List Char} (h : '\n' ∉ s) : lines s = [s] := by
  refine List.splitOnP_eq_singleton fun c hc => ?_
  rw [beq_eq_false_iff_ne]
  rintro rfl
  exact h hc

theorem lines_ne_nil (s : List Char) : lines s ≠ [] := List.splitOnP_ne_nil _ s

/-- Splitting loses the separators and nothing else. -/
theorem flatten_splitOnP {α : Type} (p : α → Bool) (xs : List α) :
    (xs.splitOnP p).flatten = xs.filter fun x => !p x := by
  induction xs with
  | nil => rfl
  | cons x xs ih =>
    rw [List.splitOnP_cons_eq_if_modifyHead, List.filter_cons, ← ih]
    cases hx : p x with
    | true => simp
    | false =>
      obtain ⟨g, gs, hgroups⟩ := List.exists_cons_of_ne_nil (List.splitOnP_ne_nil p xs)
      simp [hgroups]

theorem not_mem_of_mem_lines {s l : List Char} (h : l ∈ lines s) : '\n' ∉ l := by
  intro hfeed
  have hflat : '\n' ∈ (lines s).flatten := List.mem_flatten_of_mem h hfeed
  rw [lines, List.splitOn_eq_splitOnP, flatten_splitOnP] at hflat
  simp at hflat

/-- Lines of a text are the lines of what joins them. -/
theorem lines_unlines_of_mem {s : List Char} {ls : List (List Char)} (h : ∀ l ∈ ls, l ∈ lines s)
    (hne : ls ≠ []) : lines (unlines ls) = ls := by
  apply lines_unlines hne
  intro l hl
  exact not_mem_of_mem_lines (h l hl)

theorem unlines_cons_cons (l m : List Char) (ls : List (List Char)) :
    unlines (l :: m :: ls) = l ++ '\n' :: unlines (m :: ls) := by
  simp [unlines, List.intercalate_cons_cons]

/-! ## Unified line breaks -/

/-- A line without the carriage return that may end it. -/
def dropReturn (l : List Char) : List Char := if l.getLast? = some '\r' then l.dropLast else l

theorem unifyBreaks_lf (t : List Char) :
    unifyBreaks '\r' '\n' ('\n' :: t) = '\n' :: unifyBreaks '\r' '\n' t := by
  cases t with
  | nil => rfl
  | cons c t => simp [unifyBreaks]

/-- A line loses its carriage return to the line feed behind it. -/
theorem unifyBreaks_line {l : List Char} (h : '\n' ∉ l) (t : List Char) :
    unifyBreaks '\r' '\n' (l ++ '\n' :: t) = dropReturn l ++ '\n' :: unifyBreaks '\r' '\n' t := by
  induction l with
  | nil => exact unifyBreaks_lf t
  | cons x l ih =>
    have hl : '\n' ∉ l := fun hm => h (List.mem_cons_of_mem _ hm)
    cases l with
    | nil =>
      by_cases hx : x = '\r'
      · subst hx
        simp [unifyBreaks, dropReturn]
      · simp [unifyBreaks, dropReturn, hx, unifyBreaks_lf]
    | cons y l =>
      have hy : y ≠ '\n' := fun hy => hl (hy ▸ List.mem_cons_self)
      have hstep : unifyBreaks '\r' '\n' (x :: y :: (l ++ '\n' :: t)) =
          x :: unifyBreaks '\r' '\n' (y :: (l ++ '\n' :: t)) := by
        rw [unifyBreaks, if_neg (fun hxy => hy hxy.2)]
      have hdrop : dropReturn (x :: y :: l) = x :: dropReturn (y :: l) := by
        unfold dropReturn
        rw [List.getLast?_cons_cons]
        split <;> rfl
      rw [hdrop]
      exact hstep.trans (congrArg (x :: ·) (ih hl))

/-- Where no carriage return stands in front of a line feed there is nothing to replace. -/
theorem unifyBreaks_of_not_infix {s : List Char} (h : ¬ ['\r', '\n'] <:+: s) :
    unifyBreaks '\r' '\n' s = s := by
  fun_induction unifyBreaks '\r' '\n' s with
  | case1 => rfl
  | case2 => rfl
  | case3 x y rest hxy =>
    obtain ⟨rfl, rfl⟩ := hxy
    exact absurd (List.prefix_append ['\r', '\n'] rest).isInfix h
  | case4 x y rest hxy ih => rw [ih fun hrest => h (List.infix_cons hrest)]

theorem unifyBreaks_of_no_return {s : List Char} (h : '\r' ∉ s) :
    unifyBreaks '\r' '\n' s = s := by
  apply unifyBreaks_of_not_infix
  intro hbreak
  exact h (hbreak.subset List.mem_cons_self)

theorem trimRight_append_blank {c : Char} (h : isBlank c = true) (l : List Char) :
    trimRight (l ++ [c]) = trimRight l := by
  simp [trimRight, dropBack, h]

theorem trimRight_dropReturn (l : List Char) : trimRight (dropReturn l) = trimRight l := by
  unfold dropReturn
  split
  · rename_i h
    obtain ⟨front, rfl⟩ := List.getLast?_eq_some_iff.mp h
    rw [List.dropLast_concat, trimRight_append_blank (by decide)]
  · rfl

theorem mem_of_mem_dropReturn {c : Char} {l : List Char} (h : c ∈ dropReturn l) : c ∈ l := by
  unfold dropReturn at h
  split at h
  · exact (List.dropLast_prefix l).subset h
  · exact h

/-- Every line of a text with unified breaks is a line of the text, perhaps without its return. -/
theorem lines_unifyBreaks (s : List Char) :
    ∀ l ∈ lines (unifyBreaks '\r' '\n' s), ∃ m ∈ lines s, l = m ∨ l = dropReturn m := by
  have hlines (ls : List (List Char)) (hne : ls ≠ []) (hls : ∀ l ∈ ls, '\n' ∉ l) :
      ∀ l ∈ lines (unifyBreaks '\r' '\n' (unlines ls)), ∃ m ∈ ls, l = m ∨ l = dropReturn m := by
    induction ls with
    | nil => exact absurd rfl hne
    | cons m ls ih =>
      have hm : '\n' ∉ m := hls m List.mem_cons_self
      intro l hl
      cases ls with
      | nil =>
        have hself : unlines [m] = m := List.intercalate_singleton
        rw [hself, unifyBreaks_eq_self '\r' '\n' hm, lines_of_not_mem hm] at hl
        exact ⟨m, List.mem_cons_self, Or.inl (List.mem_singleton.mp hl)⟩
      | cons n ls =>
        have hdrop : '\n' ∉ dropReturn m := fun h => hm (mem_of_mem_dropReturn h)
        rw [unlines_cons_cons, unifyBreaks_line hm, lines_append, lines_of_not_mem hdrop] at hl
        rcases List.mem_cons.mp hl with rfl | hl
        · exact ⟨m, List.mem_cons_self, Or.inr rfl⟩
        · have hrest : ∀ l ∈ n :: ls, '\n' ∉ l := fun l h => hls l (List.mem_cons_of_mem _ h)
          obtain ⟨k, hk, hl⟩ := ih (by simp) hrest l hl
          exact ⟨k, List.mem_cons_of_mem _ hk, hl⟩
  have h := hlines (lines s) (lines_ne_nil s) fun l hl => not_mem_of_mem_lines hl
  rwa [unlines_lines] at h

end Columnar.Text

namespace Columnar.Document

open Text

/-- Texts joined to a stream, with a separator line between each two. -/
def streamOf (texts : List (List Char)) : List Char := unlines (texts.intersperse separator)

/-- The texts of a stream with their line breaks unified: the line feed in front of a separator
belongs to the breaks. -/
def unifiedTexts : List (List Char) → List (List Char)
  | [] => []
  | [s] => [unifyBreaks '\r' '\n' s]
  | s :: t :: texts => (unifyBreaks '\r' '\n' (s ++ ['\n'])).dropLast :: unifiedTexts (t :: texts)

/-- No line of the text is a separator. -/
def IsUncut (s : List Char) : Prop := ∀ l ∈ lines s, isSeparator l = false

theorem streamOf_cons_cons (s t : List Char) (texts : List (List Char)) :
    streamOf (s :: t :: texts) = s ++ '\n' :: (separator ++ '\n' :: streamOf (t :: texts)) := by
  rw [streamOf, List.intersperse_cons_cons, unlines_cons_cons]
  cases texts with
  | nil => simp [streamOf, unlines, List.intercalate_cons_cons]
  | cons u texts =>
    rw [List.intersperse_cons_cons, unlines_cons_cons, streamOf, List.intersperse_cons_cons]

theorem lines_separator : lines separator = [separator] := lines_of_not_mem (by decide)

theorem groups_streamOf {texts : List (List Char)} (hne : texts ≠ [])
    (h : ∀ s ∈ texts, IsUncut s) :
    (lines (streamOf texts)).splitOnP isSeparator = texts.map lines := by
  induction texts with
  | nil => exact absurd rfl hne
  | cons s texts ih =>
    have hs : IsUncut s := h s List.mem_cons_self
    cases texts with
    | nil =>
      have hself : streamOf [s] = s := by simp [streamOf, unlines]
      rw [hself, List.splitOnP_eq_singleton hs]
      rfl
    | cons t texts =>
      have hrest := ih (by simp) fun u hu => h u (List.mem_cons_of_mem _ hu)
      rw [streamOf_cons_cons, lines_append, lines_append, lines_separator, List.singleton_append,
        List.splitOnP_append_cons_of_forall_mem hs separator (by decide), hrest]
      rfl

/-- The segments of a stream are the texts that it was joined from. -/
theorem segments_streamOf {texts : List (List Char)} (hne : texts ≠ [])
    (h : ∀ s ∈ texts, IsUncut s) : segments (streamOf texts) = texts := by
  have hhead : (lines (streamOf texts)).head?.any isSeparator = false := by
    cases hlines : lines (streamOf texts) with
    | nil => rfl
    | cons l ls =>
      have hgroups := groups_streamOf hne h
      rw [hlines, List.splitOnP_cons_eq_if_modifyHead] at hgroups
      cases hl : isSeparator l with
      | false => exact hl
      | true =>
        -- The first group would be empty, but every text has a line.
        rw [if_pos hl] at hgroups
        cases texts with
        | nil => exact absurd rfl hne
        | cons s texts =>
          have hs : [] = lines s := (List.cons.inj hgroups).1
          exact absurd hs.symm (lines_ne_nil s)
  unfold segments groupLines
  rw [hhead, groups_streamOf hne h]
  simp [Function.comp_def, unlines_lines]

theorem unifyBreaks_append (s t : List Char) :
    unifyBreaks '\r' '\n' (s ++ '\n' :: t) =
      unifyBreaks '\r' '\n' (s ++ ['\n']) ++ unifyBreaks '\r' '\n' t := by
  fun_induction unifyBreaks '\r' '\n' s with
  | case1 => exact unifyBreaks_lf t
  | case2 x =>
    by_cases hx : x = '\r'
    · subst hx
      simp [unifyBreaks]
    · simp [unifyBreaks, hx, unifyBreaks_lf]
  | case3 x y rest hxy ih =>
    simp only [List.cons_append, unifyBreaks, if_pos hxy, ih]
  | case4 x y rest hxy ih =>
    simp only [List.cons_append] at ih
    simp only [List.cons_append, unifyBreaks, if_neg hxy, ih]

/-- The line feed at the end of a text stays there. -/
theorem unifyBreaks_concat (s : List Char) :
    unifyBreaks '\r' '\n' (s ++ ['\n']) =
      (unifyBreaks '\r' '\n' (s ++ ['\n'])).dropLast ++ ['\n'] := by
  have hlast : ∃ front, unifyBreaks '\r' '\n' (s ++ ['\n']) = front ++ ['\n'] := by
    fun_induction unifyBreaks '\r' '\n' s with
    | case1 => exact ⟨[], rfl⟩
    | case2 x =>
      by_cases hx : x = '\r'
      · subst hx
        exact ⟨[], rfl⟩
      · exact ⟨[x], by simp [unifyBreaks, hx]⟩
    | case3 x y rest hxy ih =>
      obtain ⟨front, hfront⟩ := ih
      exact ⟨'\n' :: front, by simp [unifyBreaks, if_pos hxy, hfront]⟩
    | case4 x y rest hxy ih =>
      obtain ⟨front, hfront⟩ := ih
      simp only [List.cons_append] at hfront
      exact ⟨x :: front, by simp [unifyBreaks, if_neg hxy, hfront]⟩
  obtain ⟨front, hfront⟩ := hlast
  rw [hfront, List.dropLast_concat]

theorem unifyBreaks_streamOf (texts : List (List Char)) :
    unifyBreaks '\r' '\n' (streamOf texts) = streamOf (unifiedTexts texts) := by
  induction texts with
  | nil => rfl
  | cons s texts ih =>
    cases texts with
    | nil => simp [streamOf, unifiedTexts, unlines]
    | cons t texts =>
      have hseparator : unifyBreaks '\r' '\n' (separator ++ ['\n']) = separator ++ ['\n'] := rfl
      have hrest : unifiedTexts (t :: texts) ≠ [] := by cases texts <;> simp [unifiedTexts]
      cases hunified : unifiedTexts (t :: texts) with
      | nil => exact absurd hunified hrest
      | cons u us =>
        rw [hunified] at ih
        rw [streamOf_cons_cons, unifyBreaks_append s, unifyBreaks_append separator, hseparator, ih,
          unifyBreaks_concat s, unifiedTexts, hunified, streamOf_cons_cons]
        simp

theorem isSeparator_dropReturn (l : List Char) : isSeparator (dropReturn l) = isSeparator l := by
  rw [isSeparator, isSeparator, trimRight_dropReturn]

theorem IsUncut.unifyBreaks {s : List Char} (h : IsUncut s) :
    IsUncut (unifyBreaks '\r' '\n' s) := by
  intro l hl
  obtain ⟨m, hm, rfl | rfl⟩ := lines_unifyBreaks s l hl
  · exact h _ hm
  · rw [isSeparator_dropReturn]
    exact h _ hm

theorem IsUncut.unified {texts : List (List Char)} (h : ∀ s ∈ texts, IsUncut s) :
    ∀ s ∈ unifiedTexts texts, IsUncut s := by
  induction texts with
  | nil => simp [unifiedTexts]
  | cons s texts ih =>
    have hs : IsUncut s := h s List.mem_cons_self
    cases texts with
    | nil =>
      intro u hu
      obtain rfl : u = _ := List.mem_singleton.mp hu
      exact hs.unifyBreaks
    | cons t texts =>
      have hconcat : IsUncut (s ++ ['\n']) := by
        intro l hl
        rw [lines_append] at hl
        rcases List.mem_append.mp hl with hl | hl
        · exact hs l hl
        · obtain rfl : l = [] := by simpa [lines] using hl
          decide
      intro u hu
      rcases List.mem_cons.mp hu with rfl | hu
      · intro l hl
        refine hconcat.unifyBreaks l ?_
        rw [unifyBreaks_concat, lines_append]
        exact List.mem_append_left _ hl
      · exact ih (fun u hu => h u (List.mem_cons_of_mem _ hu)) u hu

/-- Where there is no carriage return, unified texts are the texts. -/
theorem unifiedTexts_eq_self {texts : List (List Char)} (h : ∀ s ∈ texts, '\r' ∉ s) :
    unifiedTexts texts = texts := by
  induction texts with
  | nil => rfl
  | cons s texts ih =>
    have hs : '\r' ∉ s := h s List.mem_cons_self
    cases texts with
    | nil => rw [unifiedTexts, unifyBreaks_of_no_return hs]
    | cons t texts =>
      have hconcat : '\r' ∉ s ++ ['\n'] := by simp [hs]
      have hrest := ih fun u hu => h u (List.mem_cons_of_mem _ hu)
      rw [unifiedTexts, unifyBreaks_of_no_return hconcat, List.dropLast_concat, hrest]

/-- Recovery cuts a stream back into the texts that it was joined from. -/
theorem segments_unifyBreaks_streamOf {texts : List (List Char)} (hne : texts ≠ [])
    (h : ∀ s ∈ texts, IsUncut s) :
    segments (unifyBreaks '\r' '\n' (streamOf texts)) = unifiedTexts texts := by
  have hunified : unifiedTexts texts ≠ [] := by
    cases texts with
    | nil => exact absurd rfl hne
    | cons s texts => cases texts <;> simp [unifiedTexts]
  rw [unifyBreaks_streamOf, segments_streamOf hunified (IsUncut.unified h)]

end Columnar.Document
