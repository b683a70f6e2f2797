import Columnar.Proofs.Yaml.Shift

/-!
# Lexemes behind a separator line

Each reader of a lexeme reads the same with a separator line in front of the text. A loop runs out
of text before it runs out of its bound, so that the larger bound there makes no difference; this
is why every step of a loop is shown to leave less text.
-/

namespace Columnar.Yaml

/-- Reading a lexeme, without and with a separator line in front of the text: the same is read, and
fewer than `n` characters are left. -/
abbrev Shifts {α : Type} (n : Nat) (x y : Except Fault (α × Cursor)) : Prop :=
  Alike (fun p q => q = (p.1, p.2.shift) ∧ p.2.Fit n) x y

namespace Shifts

variable {α β : Type} {m n : Nat} {x y : Except Fault (α × Cursor)}

theorem read {a : α} {c : Cursor} (h : c.Fit n) : Shifts n (.ok (a, c)) (.ok (a, c.shift)) :=
  .ok ⟨rfl, h⟩

theorem mono (h : Shifts m x y) (hmn : m ≤ n) : Shifts n x y :=
  Alike.mono h fun _ _ hp => ⟨hp.1, hp.2.mono hmn⟩

theorem bind {f g : α × Cursor → Except Fault (β × Cursor)} (h : Shifts m x y)
    (hf : ∀ a c, Cursor.Fit m c → Shifts n (f (a, c)) (g (a, c.shift))) :
    Shifts n (x >>= f) (y >>= g) := by
  refine Alike.bind h ?_
  rintro ⟨a, c⟩ _ ⟨rfl, hc⟩
  exact hf a c hc

/-- An expectation does not depend on the positions. -/
theorem expect {c : Cursor} {p : Char → Bool} {context context' : Context} {began began' : Mark}
    {wanted wanted' : Wanted} (h : p c.peek = true → Shifts n x y) :
    Shifts n (c.expect p context began wanted >>= fun _ => x)
      (c.shift.expect p context' began' wanted' >>= fun _ => y) := by
  unfold Cursor.expect
  rw [Cursor.peek_shift]
  by_cases hp : p c.peek = true
  · rw [if_pos hp, if_pos hp]
    exact h hp
  · rw [if_neg hp, if_neg hp]
    exact .marked

end Shifts

namespace Cursor

variable {c : Cursor} {n : Nat} {context missing : Context} {began began' : Mark}

theorem Fit.toBound (h : c.Fit n) : c.Fit c.bound := ⟨h.bounded, h.bounded, h.unmarked⟩

theorem Fit.exact (h : c.Fit n) : c.Fit (c.rest.length + 1) :=
  ⟨h.bounded, Nat.lt_succ_self _, h.unmarked⟩

/-- What is shorter than a text within a bound is within the bound before it. -/
theorem Fit.shorter {d : Cursor} (hd : d.Fit c.rest.length) (h : c.Fit (n + 1)) : d.Fit n :=
  hd.mono (Nat.le_of_lt_succ h.left)

theorem Fit.absurd_zero {p : Prop} (h : c.Fit 0) : p := absurd h.left (Nat.not_lt_zero _)

/-! ## Words -/

theorem anchorName_shift (h : c.Fit (n + 1)) (hpeek : c.peek ≠ endChar) :
    Shifts n (c.anchorName context) (c.shift.anchorName context) := by
  have hword := (h.next_lt hpeek).skipWhile isWord
  unfold anchorName
  simp only [next_shift, takeWhile_shift]
  exact .ite (fun _ => .marked) fun _ => Shifts.expect fun _ => Shifts.read hword

theorem tagHandle_shift (h : c.Fit (n + 1)) :
    Shifts n (c.tagHandle context began) (c.shift.tagHandle context began') := by
  unfold tagHandle
  refine Shifts.expect fun hpeek => ?_
  have hnext : c.next.Fit n := h.next_lt (by rw [eq_of_beq hpeek]; decide)
  simp only [peekAt_shift, next_shift, takeWhile_shift]
  refine .ite (fun _ => Shifts.read hnext) fun _ => ?_
  exact Shifts.expect fun _ => Shifts.read (hnext.skipWhile isWord).next

theorem uriBytes_shift {fuel : Nat} (h : c.Fit fuel) :
    Shifts (c.rest.length + 1) (uriBytes context began fuel c)
      (uriBytes context began' (fuel + 4) c.shift) := by
  induction fuel generalizing c with
  | zero => exact h.absurd_zero
  | succ fuel ih =>
    unfold uriBytes
    simp only [peek_shift, next_shift, peekAt_shift, skip_shift]
    refine .ite (fun _ => Shifts.read h.exact) fun hpeek => ?_
    have hpercent : c.peek = '%' := by simpa using hpeek
    have hend : c.peek ≠ endChar := by rw [hpercent]; decide
    have hskip := h.exact.skip_lt hend 2
    split
    · exact .marked
    · exact Shifts.bind (ih (hskip.shorter h)) fun bytes d hd =>
        Shifts.read (hd.mono (Nat.le_succ_of_le hskip.left))

/-- Behind a percent sign at least one byte is read. -/
theorem uriBytes_shift_lt {fuel : Nat} (h : c.Fit fuel) (hpeek : c.peek = '%') :
    Shifts c.rest.length (uriBytes context began fuel c)
      (uriBytes context began' (fuel + 4) c.shift) := by
  cases fuel with
  | zero => exact h.absurd_zero
  | succ fuel =>
    have hend : c.peek ≠ endChar := by rw [hpeek]; decide
    have hskip := h.exact.skip_lt hend 2
    have hbyte : ¬(c.peek != '%') = true := by simp [hpeek]
    unfold uriBytes
    rw [peek_shift, if_neg hbyte, if_neg hbyte]
    simp only [next_shift, peek_shift, peekAt_shift, skip_shift]
    split
    · exact .marked
    · exact Shifts.bind (uriBytes_shift (hskip.shorter h)) fun bytes d hd =>
        Shifts.read (hd.mono hskip.left)

theorem uriPieces_shift {fuel : Nat} (h : c.Fit fuel) :
    Shifts (c.rest.length + 1) (uriPieces context began fuel c)
      (uriPieces context began' (fuel + 4) c.shift) := by
  induction fuel generalizing c with
  | zero => exact h.absurd_zero
  | succ fuel ih =>
    have hmore (piece : List Char) {d : Cursor} (hd : d.Fit c.rest.length) :
        Shifts (c.rest.length + 1)
          (do
            let r ← uriPieces context began fuel d
            return (piece ++ r.1, r.2))
          (do
            let r ← uriPieces context began' (fuel + 4) d.shift
            return (piece ++ r.1, r.2)) :=
      Shifts.bind (ih (hd.shorter h)) fun more e he =>
        Shifts.read (he.mono (Nat.le_succ_of_le hd.left))
    unfold uriPieces
    simp only [peek_shift, takeWhile_shift, bound_shift]
    refine .ite (fun hpeek => ?_) fun _ => .ite (fun hpeek => ?_) fun _ => Shifts.read h.exact
    · refine Shifts.bind (uriBytes_shift_lt h.toBound (eq_of_beq hpeek)) fun bytes d hd => ?_
      dsimp only
      split
      · exact .marked
      · exact hmore _ hd
    · have hend : c.peek ≠ endChar := by
        intro hend
        rw [hend] at hpeek
        exact absurd hpeek (by decide)
      exact hmore _ (h.exact.skipWhile_lt hpeek hend)

theorem tagUri_shift (h : c.Fit n) :
    Shifts n (c.tagUri context missing began) (c.shift.tagUri context missing began') := by
  unfold tagUri
  refine Shifts.expect fun _ => ?_
  exact Shifts.bind (uriPieces_shift h.toBound) fun piece d hd => Shifts.read (hd.mono h.left)

theorem tag_shift (h : c.Fit (n + 1)) (hpeek : c.peek = '!') : Shifts n c.tag c.shift.tag := by
  have hend : c.peek ≠ endChar := by rw [hpeek]; decide
  have hspace (lexeme : Lexeme) {d : Cursor} (hd : d.Fit n) :
      Shifts n
        (do
          d.expect (fun x => x == ' ' || isBreakOrEnd x) .tag c.mark .space
          return (lexeme, d))
        (do
          d.shift.expect (fun x => x == ' ' || isBreakOrEnd x) .tag c.shift.mark .space
          return (lexeme, d.shift)) := Shifts.expect fun _ => Shifts.read hd
  have hsuffix (handle : String) {d : Cursor} (hd : d.Fit n) :
      Shifts n
        (do
          let r ← d.tagUri .tag .tagUri c.mark
          r.2.expect (fun x => x == ' ' || isBreakOrEnd x) .tag c.mark .space
          return (Lexeme.tag (some handle) r.1, r.2))
        (do
          let r ← d.shift.tagUri .tag .tagUri c.shift.mark
          r.2.expect (fun x => x == ' ' || isBreakOrEnd x) .tag c.shift.mark .space
          return (Lexeme.tag (some handle) r.1, r.2)) :=
    Shifts.bind (tagUri_shift hd) fun uri e he => hspace _ he
  unfold tag
  dsimp only
  simp only [peekAt_shift, skip_shift, next_shift, rest_shift]
  refine .ite (fun _ => ?_) fun _ => .ite (fun _ => hspace _ (h.next_lt hend)) fun _ =>
    .ite (fun _ => ?_) fun _ => hsuffix _ (h.next_lt hend)
  · refine Shifts.bind (tagUri_shift (h.skip_lt hend 1)) fun uri d hd => Shifts.expect fun _ => ?_
    simp only [next_shift]
    exact hspace _ hd.next
  · exact Shifts.bind (tagHandle_shift h) fun handle d hd => hsuffix handle hd

/-! ## Directives -/

theorem versionNumber_shift (h : c.Fit n) :
    Shifts n (c.versionNumber began) (c.shift.versionNumber began') := by
  unfold versionNumber
  refine Shifts.expect fun _ => ?_
  simp only [takeWhile_shift]
  exact .ite (fun _ => .fault rfl) fun _ => Shifts.read (h.skipWhile Char.isDigit)

theorem directive_shift (h : c.Fit (n + 1)) (hpeek : c.peek ≠ endChar) :
    Shifts n c.directive c.shift.directive := by
  have hend (d : Directive) {e : Cursor} (he : e.Fit n) :
      Shifts n
        (do
          e.skipSpaces.skipComment.expect isBreakOrEnd .directive c.mark .lineEnd
          return (Lexeme.directive d, e.skipSpaces.skipComment.lineBreak.2))
        (do
          e.shift.skipSpaces.skipComment.expect isBreakOrEnd .directive c.shift.mark .lineEnd
          return (Lexeme.directive d, e.shift.skipSpaces.skipComment.lineBreak.2)) := by
    simp only [skipSpaces_shift, skipComment_shift, lineBreak_shift]
    exact Shifts.expect fun _ => Shifts.read he.skipSpaces.skipComment.lineBreak
  have hword : (c.next.takeWhile isWord).2.Fit n := (h.next_lt hpeek).skipWhile isWord
  unfold directive
  simp only [next_shift, takeWhile_shift]
  generalize c.next.takeWhile isWord = word at hword ⊢
  obtain ⟨name, d⟩ := word
  refine .ite (fun _ => .marked) fun _ => Shifts.expect fun _ => ?_
  simp only [skipSpaces_shift]
  refine .ite (fun _ => ?_) fun _ => .ite (fun _ => ?_) fun _ => ?_
  · refine Shifts.bind (versionNumber_shift hword.skipSpaces) fun major e he => ?_
    refine Shifts.expect fun _ => ?_
    simp only [next_shift]
    refine Shifts.bind (versionNumber_shift he.next) fun minor e he => ?_
    refine Shifts.expect fun _ => ?_
    rw [pure_bind, pure_bind]
    exact hend (.version major minor) he
  · have hspaces := hword.skipSpaces.mono (Nat.le_succ n)
    refine Shifts.bind (tagHandle_shift hspaces) fun handle e he => ?_
    refine Shifts.expect fun _ => ?_
    simp only [skipSpaces_shift]
    refine Shifts.bind (tagUri_shift he.skipSpaces) fun base e he => ?_
    refine Shifts.expect fun _ => ?_
    rw [pure_bind, pure_bind]
    exact hend (.tag handle base) he
  · rw [skipWhile_shift, pure_bind, pure_bind]
    exact hend .other (hword.skipWhile fun x => !isBreakOrEnd x)

/-! ## Block scalars -/

@[simp] theorem chompingIndicator_shift (c : Cursor) :
    c.shift.chompingIndicator = (c.chompingIndicator.1, c.chompingIndicator.2.shift) := by
  unfold chompingIndicator
  simp only [peek_shift, next_shift]
  split
  · rfl
  split <;> rfl

theorem Fit.chompingIndicator (h : c.Fit n) : c.chompingIndicator.2.Fit n := by
  unfold Cursor.chompingIndicator
  split
  · exact h.next
  split
  · exact h.next
  · exact h

theorem indentationIndicator_shift (h : c.Fit n) :
    Shifts n (c.indentationIndicator began) (c.shift.indentationIndicator began') := by
  unfold indentationIndicator
  simp only [peek_shift, next_shift]
  exact .ite (fun _ => .marked) fun _ => .ite (fun _ => Shifts.read h.next) fun _ => Shifts.read h

theorem blockHeader_shift (h : c.Fit n) :
    Shifts n (c.blockHeader began) (c.shift.blockHeader began') := by
  unfold blockHeader
  simp only [chompingIndicator_shift]
  refine Shifts.bind (indentationIndicator_shift h.chompingIndicator) fun indentation d hd => ?_
  dsimp only
  split
  · rw [chompingIndicator_shift]
    exact Shifts.expect fun _ => Shifts.read hd.chompingIndicator
  · exact Shifts.expect fun _ => Shifts.read hd

@[simp] theorem skipIndent_shift (indent : Nat) (c : Cursor) :
    c.shift.skipIndent indent = (c.skipIndent indent).shift := skip_shift _ c

theorem emptyLines_shift (indent : Nat) {fuel : Nat} (h : c.Fit fuel) :
    emptyLines indent (fuel + 4) c.shift =
        ((emptyLines indent fuel c).1, (emptyLines indent fuel c).2.shift) ∧
      (emptyLines indent fuel c).2.Fit (c.rest.length + 1) := by
  induction fuel generalizing c with
  | zero => exact h.absurd_zero
  | succ fuel ih =>
    have hindent : (c.skipIndent indent).Fit (c.rest.length + 1) := h.exact.skip _
    unfold emptyLines
    simp only [skipIndent_shift, lineBreak_shift]
    generalize hbreak : (c.skipIndent indent).lineBreak = broken
    obtain ⟨_ | b, rest⟩ := broken
    · exact ⟨rfl, hindent⟩
    · have hrest := hindent.lineBreak_lt hbreak
      obtain ⟨hsame, hmore⟩ := ih (hrest.shorter h)
      dsimp only
      rw [hsame]
      exact ⟨rfl, hmore.mono (Nat.le_succ_of_le hrest.left)⟩

theorem leadingLines_shift {fuel : Nat} (h : c.Fit fuel) :
    leadingLines (fuel + 4) c.shift =
        ((leadingLines fuel c).1, (leadingLines fuel c).2.1, (leadingLines fuel c).2.2.shift) ∧
      (leadingLines fuel c).2.2.Fit (c.rest.length + 1) := by
  induction fuel generalizing c with
  | zero => exact h.absurd_zero
  | succ fuel ih =>
    have hspaces : c.skipSpaces.Fit (c.rest.length + 1) := h.exact.skipSpaces
    unfold leadingLines
    simp only [skipSpaces_shift, lineBreak_shift]
    generalize hbreak : c.skipSpaces.lineBreak = broken
    obtain ⟨_ | b, rest⟩ := broken
    · exact ⟨rfl, hspaces⟩
    · have hrest := hspaces.lineBreak_lt hbreak
      obtain ⟨hsame, hmore⟩ := ih (hrest.shorter h)
      dsimp only
      rw [hsame]
      exact ⟨rfl, hmore.mono (Nat.le_succ_of_le hrest.left)⟩

theorem exists_lineBreak (h : isBreak c.peek = true) :
    ∃ b rest, c.lineBreak = (some b, rest) := by
  simp only [isBreak, Bool.or_eq_true, beq_iff_eq] at h
  unfold Cursor.lineBreak
  dsimp only
  split
  · exact ⟨_, _, rfl⟩
  · rcases h with (((hx | hx) | hx) | hx) | hx <;> simp [hx]

theorem skipWhile_of_not {p : Char → Bool} (h : p c.peek = false) : c.skipWhile p = c := by
  have hrun : c.run p = [] := by
    unfold run
    cases hrest : c.rest with
    | nil => rfl
    | cons x rest =>
      rw [peek, hrest] at h
      exact List.takeWhile_cons_of_neg (by simpa using h)
  rw [Cursor.skipWhile, hrun]
  rfl

/-- A line of text with the break behind it is not empty. -/
theorem Fit.line (h : c.Fit (n + 1)) (hend : c.atEnd = false) :
    ((c.skipWhile fun x => !isBreakOrEnd x).lineBreak).2.Fit n := by
  have hpeek : c.peek ≠ endChar := by simpa [atEnd] using hend
  cases hbreak : isBreakOrEnd c.peek with
  | false => exact (h.skipWhile_lt (by simp [hbreak]) hpeek).lineBreak
  | true =>
    rw [skipWhile_of_not (by simp [hbreak])]
    have hbreaks : isBreak c.peek = true := by simpa [isBreakOrEnd, hpeek] using hbreak
    obtain ⟨b, rest, hrest⟩ := exists_lineBreak hbreaks
    rw [hrest]
    exact h.lineBreak_lt hrest

theorem blockLines_shift (folded : Bool) (indent : Nat) (empty : List Char) {fuel : Nat}
    (h : c.Fit fuel) :
    blockLines folded indent (fuel + 4) empty c.shift =
        { blockLines folded indent fuel empty c with
          rest := (blockLines folded indent fuel empty c).rest.shift } ∧
      (blockLines folded indent fuel empty c).rest.Fit (c.rest.length + 1) := by
  induction fuel generalizing c empty with
  | zero => exact h.absurd_zero
  | succ fuel ih =>
    unfold blockLines
    simp only [column_shift, atEnd_shift, takeWhile_shift, lineBreak_shift, peek_shift]
    by_cases hline : (c.column == indent && !c.atEnd) = true
    · have hend : c.atEnd = false := by simpa using (Bool.and_eq_true_iff.mp hline).2
      rw [if_pos hline, if_pos hline]
      have hlineEnd : (c.takeWhile fun x => !isBreakOrEnd x).2.lineBreak.2.Fit c.rest.length :=
        h.exact.line hend
      generalize (c.takeWhile fun x => !isBreakOrEnd x) = line at hlineEnd ⊢
      generalize line.2.lineBreak = broken at hlineEnd ⊢
      obtain ⟨lineEnd, d⟩ := broken
      obtain ⟨hsame, hbehind⟩ := emptyLines_shift indent hlineEnd.toBound
      simp only [bound_shift, hsame, column_shift, atEnd_shift, peek_shift]
      have hshorter := hbehind.mono hlineEnd.left
      generalize emptyLines indent d.bound d = behind at hshorter ⊢
      obtain ⟨behind, e⟩ := behind
      by_cases hmore : (e.column == indent && !e.atEnd) = true
      · obtain ⟨hsame, hrest⟩ := ih behind (hshorter.shorter h)
        rw [if_pos hmore, if_pos hmore, hsame]
        exact ⟨rfl, hrest.mono (Nat.le_succ_of_le hshorter.left)⟩
      · rw [if_neg hmore, if_neg hmore]
        exact ⟨rfl, hshorter.mono (Nat.le_succ _)⟩
    · rw [if_neg hline, if_neg hline]
      exact ⟨rfl, h.exact⟩

/-- The lines of a block scalar, with the line breaks at the end that its header asks for. -/
theorem chompedLines_shift {folded : Bool} (chomping : Chomping) (empty : List Char)
    (indent : Nat) {f : Cursor} (hf : f.Fit n) :
    Shifts n
      (.ok (String.ofList ((blockLines folded indent f.bound empty f).text ++
        match chomping with
        | .strip => []
        | .clip => (blockLines folded indent f.bound empty f).lineEnd.toList
        | .keep => (blockLines folded indent f.bound empty f).lineEnd.toList ++
            (blockLines folded indent f.bound empty f).empty),
        (blockLines folded indent f.bound empty f).rest))
      (.ok (String.ofList ((blockLines folded indent (f.bound + 4) empty f.shift).text ++
        match chomping with
        | .strip => []
        | .clip => (blockLines folded indent (f.bound + 4) empty f.shift).lineEnd.toList
        | .keep => (blockLines folded indent (f.bound + 4) empty f.shift).lineEnd.toList ++
            (blockLines folded indent (f.bound + 4) empty f.shift).empty),
        (blockLines folded indent (f.bound + 4) empty f.shift).rest)) := by
  obtain ⟨hsame, hrest⟩ := blockLines_shift folded indent empty hf.toBound
  rw [hsame]
  exact Shifts.read (hrest.mono hf.left)

theorem blockScalar_shift {folded : Bool} {parent : Int} (h : c.Fit (n + 1))
    (hpeek : c.peek ≠ endChar) :
    Shifts n (c.blockScalar folded parent) (c.shift.blockScalar folded parent) := by
  unfold blockScalar
  simp only [next_shift]
  refine Shifts.bind (blockHeader_shift (h.next_lt hpeek)) fun header d hd => ?_
  simp only [skipSpaces_shift, skipComment_shift, lineBreak_shift, bound_shift]
  refine Shifts.expect fun _ => ?_
  have hline := hd.skipSpaces.skipComment.lineBreak
  generalize d.skipSpaces.skipComment.lineBreak.2 = e at hline ⊢
  cases header.indentation with
  | none =>
    obtain ⟨hsame, hleading⟩ := leadingLines_shift hline.toBound
    simp only [hsame]
    exact chompedLines_shift header.chomping _ _ (hleading.mono hline.left)
  | some k =>
    obtain ⟨hsame, hempty⟩ := emptyLines_shift (max 1 (parent + 1).toNat + k - 1) hline.toBound
    simp only [hsame]
    exact chompedLines_shift header.chomping _ _ (hempty.mono hline.left)

/-! ## Quoted scalars -/

theorem quotedBreaks_shift {fuel : Nat} (h : c.Fit fuel) :
    Shifts (c.rest.length + 1) (quotedBreaks began fuel c)
      (quotedBreaks began' (fuel + 4) c.shift) := by
  induction fuel generalizing c with
  | zero => exact h.absurd_zero
  | succ fuel ih =>
    have hwhite : (c.skipWhile isWhite).Fit (c.rest.length + 1) := h.exact.skipWhile _
    unfold quotedBreaks
    simp only [atSeparator_shift, skipWhile_shift, lineBreak_shift]
    refine .ite (fun _ => .marked) fun _ => ?_
    generalize hbreak : (c.skipWhile isWhite).lineBreak = broken
    obtain ⟨_ | b, rest⟩ := broken
    · exact Shifts.read hwhite
    · have hrest := hwhite.lineBreak_lt hbreak
      exact Shifts.bind (ih (hrest.shorter h)) fun more d hd =>
        Shifts.read (hd.mono (Nat.le_succ_of_le hrest.left))

/-- White space or a line break is not empty. -/
theorem quotedSpace_shift (h : c.Fit n) (hgap : isGap c.peek = true) :
    Shifts c.rest.length (c.quotedSpace began) (c.shift.quotedSpace began') := by
  have hwhite : (c.skipWhile isWhite).Fit (c.rest.length + 1) := h.exact.skipWhile _
  unfold quotedSpace
  simp only [takeWhile_shift, atEnd_shift, lineBreak_shift]
  refine .ite (fun _ => .marked) fun hend => ?_
  generalize hbreak : (c.takeWhile isWhite).2.lineBreak = broken
  obtain ⟨_ | b, rest⟩ := broken
  · refine Shifts.read ?_
    cases hpeek : isWhite c.peek with
    | true =>
      refine h.exact.skipWhile_lt hpeek fun hc => ?_
      rw [hc] at hpeek
      exact absurd hpeek (by decide)
    | false =>
      -- Without white space the gap is a line break.
      have hself : (c.takeWhile isWhite).2 = c := skipWhile_of_not hpeek
      rw [hself] at hbreak hend
      have hbreaks : isBreak c.peek = true := by
        simpa [isGap, isBreakOrEnd, hpeek, show c.peek ≠ endChar by simpa [atEnd] using hend]
          using hgap
      obtain ⟨b, rest, hsome⟩ := exists_lineBreak hbreaks
      rw [hsome] at hbreak
      cases hbreak
  · have hrest := hwhite.lineBreak_lt hbreak
    exact Shifts.bind (quotedBreaks_shift hrest.toBound) fun more d hd =>
      Shifts.read (hd.mono hrest.left)

theorem escape_shift (h : c.Fit n) (hpeek : c.peek = '\\') :
    Shifts c.rest.length (c.escape began) (c.shift.escape began') := by
  have hnext : c.next.Fit c.rest.length := h.exact.next_lt (by rw [hpeek]; decide)
  unfold escape
  simp only [next_shift, peek_shift, peekAt_shift, lineBreak_shift, skip_shift]
  split
  · exact Shifts.read hnext.next
  · split
    · exact .marked
    · refine Alike.bind (.refl _) ?_
      rintro x _ rfl
      exact Shifts.read (hnext.next.skip _)
  · generalize hbreak : c.next.lineBreak = broken
    have hrest := hnext.lineBreak
    obtain ⟨_ | b, rest⟩ := broken
    · exact .marked
    · rw [hbreak] at hrest
      exact (quotedBreaks_shift hrest.toBound).mono hrest.left

theorem quotedPieces_shift {double : Bool} {fuel : Nat} (h : c.Fit fuel) :
    Shifts (c.rest.length + 1) (quotedPieces double began fuel c)
      (quotedPieces double began' (fuel + 4) c.shift) := by
  induction fuel generalizing c with
  | zero => exact h.absurd_zero
  | succ fuel ih =>
    have hmore (piece : List Char) {d : Cursor} (hd : d.Fit c.rest.length) :
        Shifts (c.rest.length + 1)
          (do
            let r ← quotedPieces double began fuel d
            return (piece ++ r.1, r.2))
          (do
            let r ← quotedPieces double began' (fuel + 4) d.shift
            return (piece ++ r.1, r.2)) :=
      Shifts.bind (ih (hd.shorter h)) fun more e he =>
        Shifts.read (he.mono (Nat.le_succ_of_le hd.left))
    unfold quotedPieces
    dsimp only
    have hquoteEnd : (if double then '"' else '\x27') ≠ endChar := by cases double <;> decide
    generalize (if double then '"' else '\x27') = quote at hquoteEnd ⊢
    simp only [peek_shift, peekAt_shift, skip_shift, next_shift, takeWhile_shift]
    refine .ite (fun htwo => ?_) fun _ => .ite (fun _ => Shifts.read h.exact.next) fun _ => ?_
    · have hquote : c.peek = quote := by
        simp only [Bool.and_eq_true, beq_iff_eq] at htwo
        exact htwo.1.2
      have hskip : (c.skip 2).Fit c.rest.length := h.exact.skip_lt (hquote ▸ hquoteEnd) 1
      exact hmore [quote] hskip
    refine .ite (fun hordinary => ?_) fun _ => .ite (fun hgap => ?_) fun hgap => ?_
    · have hend : c.peek ≠ endChar := by
        intro hend
        rw [hend] at hordinary
        exact absurd hordinary (by decide)
      exact hmore _ (h.exact.skipWhile_lt hordinary hend)
    · exact Shifts.bind (quotedSpace_shift h hgap) fun piece d hd => hmore piece hd
    have hend : c.peek ≠ endChar := by
      intro hend
      rw [hend] at hgap
      exact hgap (by decide)
    refine .ite (fun hescape => ?_) fun _ => hmore _ (h.exact.next_lt hend)
    have hback : c.peek = '\\' := by
      simp only [Bool.and_eq_true, beq_iff_eq] at hescape
      exact hescape.2
    exact Shifts.bind (escape_shift h hback) fun piece d hd => hmore piece hd

theorem quotedScalar_shift (h : c.Fit (n + 1)) (hpeek : c.peek ≠ endChar) :
    Shifts n c.quotedScalar c.shift.quotedScalar := by
  have hnext := h.next_lt hpeek
  unfold quotedScalar
  simp only [next_shift, peek_shift]
  refine Shifts.bind (quotedPieces_shift h.toBound.next) fun text d hd => ?_
  exact Shifts.read (hd.mono hnext.left)

/-! ## Plain scalars -/

/-- The white space behind a piece of plain text, with a separator line in front of the text. -/
def PlainSpace.shift (s : PlainSpace) : PlainSpace := { s with rest := s.rest.shift }

theorem plainBreaks_shift {fuel : Nat} (h : c.Fit fuel) :
    plainBreaks (fuel + 4) c.shift = ((plainBreaks fuel c).1, (plainBreaks fuel c).2.shift) ∧
      (plainBreaks fuel c).2.Fit (c.rest.length + 1) := by
  induction fuel generalizing c with
  | zero => exact h.absurd_zero
  | succ fuel ih =>
    have hspaces : c.skipSpaces.Fit (c.rest.length + 1) := h.exact.skipSpaces
    unfold plainBreaks
    simp only [atSeparator_shift, skipSpaces_shift, lineBreak_shift]
    split
    · exact ⟨rfl, h.exact⟩
    · generalize hbreak : c.skipSpaces.lineBreak = broken
      obtain ⟨_ | b, rest⟩ := broken
      · exact ⟨rfl, hspaces⟩
      · have hrest := hspaces.lineBreak_lt hbreak
        obtain ⟨hsame, hmore⟩ := ih (hrest.shorter h)
        dsimp only
        rw [hsame]
        exact ⟨rfl, hmore.mono (Nat.le_succ_of_le hrest.left)⟩

theorem plainSpace_shift (h : c.Fit n) :
    c.shift.plainSpace = c.plainSpace.shift ∧ c.plainSpace.rest.Fit n := by
  have hspaces : (c.takeWhile (· == ' ')).2.Fit n := h.skipWhile _
  unfold plainSpace
  simp only [takeWhile_shift, lineBreak_shift]
  generalize c.takeWhile (· == ' ') = spaces at hspaces ⊢
  obtain ⟨spaces, d⟩ := spaces
  have hrest := hspaces.lineBreak
  generalize d.lineBreak = broken at hrest ⊢
  obtain ⟨_ | b, rest⟩ := broken
  · exact ⟨rfl, hspaces⟩
  · obtain ⟨hsame, hbreaks⟩ := plainBreaks_shift hrest.toBound
    have hmore := hbreaks.mono hrest.left
    simp only [bound_shift, hsame]
    generalize plainBreaks rest.bound rest = breaks at hmore ⊢
    obtain ⟨_ | more, e⟩ := breaks
    · exact ⟨rfl, hmore⟩
    · exact ⟨rfl, hmore⟩

theorem peek_of_plainRun {inFlow : Bool} (h : plainRun inFlow c.rest ≠ []) :
    c.peek ≠ endChar := by
  intro hend
  unfold peek at hend
  cases hrest : c.rest with
  | nil =>
    rw [hrest] at h
    exact h rfl
  | cons x rest =>
    rw [hrest] at h hend
    obtain rfl : x = endChar := hend
    exact h (by simp [plainRun, endsPlain, isGap, isBreakOrEnd])

theorem plainPieces_shift (inFlow : Bool) (limit : Nat) {fuel : Nat} {s : PlainSpace}
    (h : s.rest.Fit fuel) :
    plainPieces inFlow limit (fuel + 4) s.shift =
        ((plainPieces inFlow limit fuel s).1, (plainPieces inFlow limit fuel s).2.shift) ∧
      (plainPieces inFlow limit fuel s).2.rest.Fit (s.rest.rest.length + 1) ∧
      (s.rest.peek ≠ '#' → plainRun inFlow s.rest.rest ≠ [] →
        (plainPieces inFlow limit fuel s).2.rest.Fit s.rest.rest.length) := by
  induction fuel generalizing s with
  | zero => exact h.absurd_zero
  | succ fuel ih =>
    unfold plainPieces
    simp only [PlainSpace.shift, peek_shift, rest_shift, skip_shift]
    by_cases hcomment : (s.rest.peek == '#') = true
    · rw [if_pos hcomment, if_pos hcomment]
      exact ⟨rfl, h.exact, fun hpeek => absurd (eq_of_beq hcomment) hpeek⟩
    rw [if_neg hcomment, if_neg hcomment]
    by_cases hempty : (plainRun inFlow s.rest.rest).isEmpty = true
    · rw [if_pos hempty, if_pos hempty]
      exact ⟨rfl, h.exact, fun _ hrun => absurd (List.isEmpty_iff.mp hempty) hrun⟩
    rw [if_neg hempty, if_neg hempty]
    have hrun : plainRun inFlow s.rest.rest ≠ [] := fun hrun => hempty (List.isEmpty_iff.mpr hrun)
    have hpiece : (s.rest.skip (plainRun inFlow s.rest.rest).length).Fit s.rest.rest.length := by
      obtain ⟨x, xs, hxs⟩ := List.exists_cons_of_ne_nil hrun
      rw [hxs, List.length_cons]
      exact h.exact.skip_lt (peek_of_plainRun hrun) _
    obtain ⟨hsame, hspace⟩ := plainSpace_shift hpiece
    rw [hsame]
    generalize (s.rest.skip (plainRun inFlow s.rest.rest).length).plainSpace = t at hspace ⊢
    have hstop : (t.shift.space.isEmpty || t.shift.rest.peek == '#' ||
          (!inFlow && decide (t.shift.rest.column < limit))) =
        (t.space.isEmpty || t.rest.peek == '#' ||
          (!inFlow && decide (t.rest.column < limit))) := rfl
    rw [hstop]
    by_cases hlast : (t.space.isEmpty || t.rest.peek == '#' ||
        (!inFlow && decide (t.rest.column < limit))) = true
    · rw [if_pos hlast, if_pos hlast]
      exact ⟨rfl, hspace.mono (Nat.le_succ _), fun _ _ => hspace⟩
    · obtain ⟨hsame, hmore, -⟩ := ih (hspace.shorter h)
      rw [if_neg hlast, if_neg hlast, hsame]
      have hrest := hmore.mono hspace.left
      exact ⟨rfl, hrest.mono (Nat.le_succ _), fun _ _ => hrest⟩

theorem plainScalar_shift (inFlow : Bool) (parent : Int) (h : c.Fit n) (hpeek : c.peek ≠ '#')
    (hrun : plainRun inFlow c.rest ≠ []) :
    c.shift.plainScalar inFlow parent =
        ((c.plainScalar inFlow parent).1, (c.plainScalar inFlow parent).2.1,
          (c.plainScalar inFlow parent).2.2.shift) ∧
      (c.plainScalar inFlow parent).2.2.Fit c.rest.length := by
  obtain ⟨hsame, -, hrest⟩ := plainPieces_shift inFlow (parent + 1).toNat
    (s := ⟨[], false, c⟩) h.toBound
  unfold plainScalar
  have hstart : (⟨[], false, c.shift⟩ : PlainSpace) = PlainSpace.shift ⟨[], false, c⟩ := rfl
  rw [hstart, bound_shift, hsame]
  exact ⟨rfl, hrest hpeek hrun⟩

end Cursor

end Columnar.Yaml
