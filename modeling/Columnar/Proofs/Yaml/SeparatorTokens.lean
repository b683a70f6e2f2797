import Columnar.Proofs.Yaml.ShiftTokens

/-!
# Token streams behind a separator line

Main statement: the tokens of a text with a separator line in front are the start of a document and
then the tokens of the text itself, at later positions, and they end in the same way. It rests on
the steps of the tokenizer, each of which reads the same without and with the line, and on a bound
of steps that suffices for a state; this is why the two bounds, which differ, do not matter. A text
that starts with three hyphens does not start with the end of a document, since what is once held
back in front stays in front.
-/

namespace Columnar.Yaml

/-- Two token streams have the same lexemes and end in the same way. -/
structure TokenStream.Matches (x y : TokenStream) : Prop where
  lexemes : x.tokens.map Token.lexeme = y.tokens.map Token.lexeme
  fault : x.fault.map Fault.refusal? = y.fault.map Fault.refusal?

namespace TokenStream

theorem Matches.cons {x y : TokenStream} {t u : Token} (ht : t.lexeme = u.lexeme)
    (h : x.Matches y) :
    Matches { x with tokens := t :: x.tokens } { y with tokens := u :: y.tokens } where
  lexemes := by
    rw [List.map_cons, List.map_cons, ht, h.lexemes]
  fault := h.fault

theorem matches_shift (held : List Token) : Matches ⟨held, none⟩ ⟨held.map Token.shift, none⟩ where
  lexemes := by
    rw [List.map_map]
    rfl
  fault := rfl

/-- What is released behind a step, or the fault of the step. -/
def behind (x : Except Fault Lexing) (release : Lexing → TokenStream) : TokenStream :=
  match x with
  | .error fault => ⟨[], some fault⟩
  | .ok s => release s

theorem behind_ok (s : Lexing) (release : Lexing → TokenStream) :
    behind (.ok s) release = release s := rfl

theorem releaseFrom_succ (fuel : Nat) (s : Lexing) :
    releaseFrom (fuel + 1) s =
      if s.done then ⟨s.held, none⟩
      else
        match s.held with
        | [] => behind s.lexNext (releaseFrom fuel)
        | token :: held => behind s.dropStale fun s =>
            if s.isPending then behind s.lexNext (releaseFrom fuel)
            else
              let rest := releaseFrom fuel { s with held, released := s.released + 1 }
              { rest with tokens := token :: rest.tokens } := rfl

theorem Matches.behind {R : Lexing → Lexing → Prop} {x y : Except Fault Lexing}
    {f g : Lexing → TokenStream} (h : Alike R x y) (hf : ∀ s t, R s t → (f s).Matches (g t)) :
    (behind x f).Matches (behind y g) := by
  cases h with
  | ok h => exact hf _ _ h
  | fault h => exact ⟨rfl, congrArg some h⟩

/-- Six steps for each character and one for each token that is still to be released suffice. -/
theorem releaseFrom_shift {f g n : Nat} {s : Lexing} (hf : 0 < f) (hg : 0 < g)
    (hs : s.done = true ∨
      s.cursor.Fit n ∧ 6 * n + s.weight ≤ f ∧ 6 * n + s.weight ≤ g) :
    (releaseFrom f s).Matches (releaseFrom g s.shift) := by
  induction f generalizing g n s with
  | zero => exact absurd hf (Nat.lt_irrefl 0)
  | succ f ih =>
    obtain ⟨g, rfl⟩ := Nat.exists_eq_succ_of_ne_zero (Nat.ne_of_gt hg)
    have hdone : s.shift.done = s.done := rfl
    rw [releaseFrom_succ, releaseFrom_succ, hdone]
    by_cases hd : s.done = true
    · rw [if_pos hd, if_pos hd]
      exact matches_shift s.held
    rw [if_neg hd, if_neg hd]
    obtain ⟨hfit, hf, hg⟩ := hs.resolve_left hd
    cases n with
    | zero => exact hfit.absurd_zero
    | succ n =>
      have hnext (t : Lexing) (ht : t.cursor = s.cursor) (hw : t.weight ≤ s.weight) :
          (behind t.lexNext (releaseFrom f)).Matches
            (behind t.shift.lexNext (releaseFrom g)) := by
        refine .behind (Lexing.lexNext_shift (ht ▸ hfit)) ?_
        rintro u _ ⟨rfl, hu⟩
        refine ih (n := n) (by omega) (by omega) (hu.imp_right fun ⟨hrest, hlast⟩ => ⟨hrest, ?_⟩)
        omega
      have hheld : s.shift.held = s.held.map Token.shift := rfl
      rw [hheld]
      cases hcons : s.held with
      | nil => exact hnext s rfl (Nat.le_refl _)
      | cons token held =>
        refine .behind ((Lexing.dropStale_shift s).and (Lexing.dropStale_yields s)) ?_
        rintro t _ ⟨⟨rfl, ht, hw⟩, hkept⟩
        rw [Lexing.isPending_shift]
        split
        · exact hnext t ht hw
        · have hweight : ({ t with held, released := t.released + 1 } : Lexing).weight + 1 =
              t.weight := by
            simp only [Lexing.weight, hkept, hcons, List.length_cons]
            omega
          refine Matches.cons rfl (ih (n := n + 1) ?_ ?_ (Or.inr ⟨ht ▸ hfit, ?_⟩))
          · omega
          · omega
          · omega

end TokenStream

/-! ## The first token -/

namespace Lexing

variable {s : Lexing}

/-- A hyphen starts a token where it stands. -/
theorem skipSeparation_eq_self (fuel : Nat) (h : s.cursor.peek = '-') :
    skipSeparation fuel s = s := by
  cases fuel with
  | zero => rfl
  | succ fuel =>
    have hspaces : s.cursor.skipSpaces = s.cursor := Cursor.skipWhile_of_not (by rw [h]; decide)
    have hcomment : s.cursor.skipComment = s.cursor := by
      unfold Cursor.skipComment
      rw [h]
      rfl
    have hbreak : s.cursor.lineBreak = (none, s.cursor) := by
      unfold Cursor.lineBreak
      rw [h]
      rfl
    unfold skipSeparation
    rw [hspaces, hcomment]
    dsimp only
    rw [hbreak]

theorem skipSeparation_of_break {b : Char} {rest : Cursor} (fuel : Nat)
    (h : s.cursor.skipSpaces.skipComment.lineBreak = (some b, rest)) :
    skipSeparation (fuel + 1) s =
      skipSeparation fuel { s with cursor := rest, keyAllowed := s.keyAllowed || s.inBlock } := by
  conv => lhs; unfold skipSeparation
  dsimp only
  rw [h]

theorem dropStale_eq_self (h : s.candidates = []) : s.dropStale = .ok s := by
  obtain ⟨cursor, flowDepth, indent, indents, keyAllowed, candidates, held, released, done⟩ := s
  cases h
  rfl

theorem lexNext_of_hyphen (h : s.cursor.peek = '-') (hcandidates : s.candidates = [])
    (hindents : s.indents = []) : s.lexNext = s.lexByCharacter := by
  have hmark : s.skipByteOrderMark = s := skipByteOrderMark_eq_self fun _ => by
    rw [h]
    decide
  have hclose (column : Int) : s.closeBlocks column = s := by
    unfold closeBlocks
    rw [hindents]
    exact ite_self _
  unfold lexNext
  rw [hmark]
  dsimp only
  rw [skipSeparation_eq_self _ h, dropStale_eq_self hcandidates]
  change (s.closeBlocks s.column).lexByCharacter = _
  rw [hclose]

theorem lexByCharacter_of_marker (hcolumn : s.cursor.column = 0)
    (h : s.cursor.atMarker '-' = true) : s.lexByCharacter = s.lexMarker .documentStart := by
  have hpeek : s.cursor.peek = '-' := by
    unfold Cursor.atMarker at h
    simp only [Bool.and_eq_true, beq_iff_eq] at h
    exact h.1.1.1
  unfold lexByCharacter
  simp [hpeek, hcolumn, h, endChar]

theorem lexByCharacter_of_hyphens (h : s.cursor.peek = '-') (h' : s.cursor.peekAt 1 = '-')
    (hmarker : s.cursor.atMarker '-' = false) : s.lexByCharacter = s.lexPlain := by
  have hgap : isGap '-' = false := by decide
  have hdots : s.cursor.atMarker '.' = false := by
    unfold Cursor.atMarker
    rw [h]
    rfl
  have hplain : s.atPlain = true := by
    unfold atPlain
    simp [h, h', hgap]
  unfold lexByCharacter
  simp [h, h', hgap, hmarker, hdots, hplain, endChar]

theorem lexMarker_start (source : List Char) :
    (Lexing.start source).lexMarker .documentStart = .ok { Lexing.start source with
      cursor := (Cursor.start source).skip 3
      keyAllowed := false
      held := [⟨.documentStart, ⟨0, 0, 0⟩⟩] } := rfl

/-- A token is held back, and the first one is no end of a document. -/
def Leads (s : Lexing) : Prop := ∃ t held, s.held = t :: held ∧ t.lexeme ≠ .documentEnd

theorem Leads.of_held {t : Lexing} (h : s.Leads) (ht : t.held = s.held) : t.Leads := by
  obtain ⟨first, held, hs, hfirst⟩ := h
  exact ⟨first, held, ht.trans hs, hfirst⟩

theorem Leads.emit (h : s.Leads) (lexeme : Lexeme) (mark : Mark) : (s.emit lexeme mark).Leads := by
  obtain ⟨first, held, hs, hfirst⟩ := h
  exact ⟨first, held ++ [⟨lexeme, mark⟩], by rw [Lexing.emit, hs]; rfl, hfirst⟩

theorem Leads.insertAt (h : s.Leads) (k : KeyCandidate) {lexemes : List Lexeme}
    (hlexemes : .documentEnd ∉ lexemes) : (s.insertAt k lexemes).Leads := by
  obtain ⟨first, held, hs, hfirst⟩ := h
  unfold Lexing.insertAt
  dsimp only
  cases k.token - s.released with
  | zero =>
    cases lexemes with
    | nil => exact ⟨first, held, by rw [hs]; rfl, hfirst⟩
    | cons lexeme lexemes =>
      exact ⟨_, _, rfl, fun hend => hlexemes (hend ▸ List.mem_cons_self)⟩
  | succ n => exact ⟨first, _, by rw [hs]; rfl, hfirst⟩

theorem Leads.closeBlocks (h : s.Leads) (column : Int) : (s.closeBlocks column).Leads := by
  have hfrom (indents : List Int) : (closeBlocksFrom column indents s).Leads := by
    induction indents generalizing s with
    | nil => exact h
    | cons outer indents ih =>
      unfold closeBlocksFrom
      split
      · exact ih ((h.emit .blockEnd s.mark).of_held rfl)
      · exact h
  unfold Lexing.closeBlocks
  split
  · exact hfrom s.indents
  · exact h

theorem Leads.openIfBlock (h : s.Leads) (lexeme : Lexeme) : (s.openIfBlock lexeme).Leads := by
  unfold Lexing.openIfBlock openBlock
  split
  · split
    · exact Leads.emit (h.of_held rfl) lexeme s.mark
    · exact h
  · exact h

theorem Leads.lexIndicator (h : s.Leads) (lexeme : Lexeme) : (s.lexIndicator lexeme).Leads :=
  (h.emit lexeme s.mark).of_held rfl

section
variable (h : s.Leads)
include h

theorem Leads.dropCandidate : Yields Leads s.dropCandidate := fun t ht =>
  h.of_held (dropCandidate_yields s t ht).1

theorem Leads.noteCandidate : Yields Leads s.noteCandidate := fun t ht =>
  h.of_held (noteCandidate_yields s t ht).1

theorem Leads.endBlocks : Yields Leads s.endBlocks :=
  .bind (h.closeBlocks (-1)).dropCandidate fun _ ht => .ok (ht.of_held rfl)

theorem Leads.lexStreamEnd : Yields Leads s.lexStreamEnd :=
  .bind (h.closeBlocks (-1)).dropCandidate fun t ht =>
    .ok ((ht.emit .streamEnd t.mark).of_held rfl)

theorem Leads.lexMarker (lexeme : Lexeme) : Yields Leads (s.lexMarker lexeme) :=
  .bind h.endBlocks fun t ht => .ok ((ht.emit lexeme t.mark).of_held rfl)

theorem Leads.lexDirective : Yields Leads s.lexDirective :=
  .bind h.endBlocks fun t ht => .bind_any fun r => .ok ((ht.emit r.1 t.mark).of_held rfl)

theorem Leads.lexFlowStart (lexeme : Lexeme) : Yields Leads (s.lexFlowStart lexeme) :=
  .bind h.noteCandidate fun _ ht => .ok (Leads.lexIndicator (ht.of_held rfl) lexeme)

theorem Leads.lexFlowEnd (lexeme : Lexeme) : Yields Leads (s.lexFlowEnd lexeme) :=
  .bind h.dropCandidate fun _ ht => .ok (Leads.lexIndicator (ht.of_held rfl) lexeme)

/-- An indicator at which the possible key is dropped. -/
theorem Leads.dropCandidate_lexIndicator (keyAllowed : Bool) (lexeme : Lexeme) :
    Yields Leads (do return (← { s with keyAllowed }.dropCandidate).lexIndicator lexeme) :=
  .bind (Leads.dropCandidate (h.of_held rfl)) fun _ ht => .ok (ht.lexIndicator lexeme)

theorem Leads.lexComma : Yields Leads s.lexComma :=
  h.dropCandidate_lexIndicator true .flowEntry

theorem Leads.lexDash : Yields Leads s.lexDash :=
  .bind_any fun _ =>
    (h.openIfBlock .blockSequenceStart).dropCandidate_lexIndicator true .blockEntry

theorem Leads.lexQuestionMark : Yields Leads s.lexQuestionMark :=
  .bind_any fun _ =>
    (h.openIfBlock .blockMappingStart).dropCandidate_lexIndicator s.inBlock .key

theorem Leads.lexColon : Yields Leads s.lexColon := by
  unfold Lexing.lexColon
  split
  · rename_i k _
    refine .ok (Leads.lexIndicator ?_ .value)
    split
    · exact Leads.insertAt (h.of_held rfl) k (by decide)
    · exact Leads.insertAt (h.of_held rfl) k (by decide)
  · exact .bind_any fun _ =>
      (h.openIfBlock .blockMappingStart).dropCandidate_lexIndicator s.inBlock .value

theorem Leads.lexWord (read : Cursor → Except Fault (Lexeme × Cursor)) :
    Yields Leads (s.lexWord read) :=
  .bind h.noteCandidate fun t ht => .bind_any fun r => .ok ((ht.emit r.1 t.mark).of_held rfl)

theorem Leads.lexBlockScalar (folded : Bool) : Yields Leads (s.lexBlockScalar folded) :=
  .bind (Leads.dropCandidate (h.of_held rfl)) fun t ht => .bind_any fun r =>
    .ok ((ht.emit (.scalar r.1 false) t.mark).of_held rfl)

theorem Leads.lexPlain : Yields Leads s.lexPlain :=
  .bind h.noteCandidate fun t ht => .ok ((ht.emit (.scalar _ true) t.mark).of_held rfl)

theorem Leads.lexByCharacter : Yields Leads s.lexByCharacter := by
  unfold Lexing.lexByCharacter
  refine .ite h.lexStreamEnd (.ite h.lexDirective ?_)
  refine .ite (h.lexMarker _) (.ite (h.lexMarker _) ?_)
  refine .ite (h.lexFlowStart _) (.ite (h.lexFlowStart _) ?_)
  refine .ite (h.lexFlowEnd _) (.ite (h.lexFlowEnd _) ?_)
  refine .ite h.lexComma (.ite h.lexDash ?_)
  refine .ite h.lexQuestionMark (.ite h.lexColon ?_)
  refine .ite (h.lexWord _) (.ite (h.lexWord _) (.ite (h.lexWord _) ?_))
  refine .ite (h.lexBlockScalar _) (.ite (h.lexBlockScalar _) ?_)
  exact .ite (h.lexWord _) (.ite h.lexPlain .error)

theorem Leads.lexNext : Yields Leads s.lexNext := by
  have hmark : s.skipByteOrderMark.held = s.held := by
    unfold skipByteOrderMark
    split <;> rfl
  have hskip (fuel : Nat) (t : Lexing) : (skipSeparation fuel t).held = t.held := by
    induction fuel generalizing t with
    | zero => rfl
    | succ fuel ih =>
      unfold skipSeparation
      dsimp only
      split
      · rfl
      · exact ih _
  refine .bind (dropStale_yields _) fun t ht => ?_
  have hlead : t.Leads := h.of_held (ht.trans ((hskip _ _).trans hmark))
  exact (hlead.closeBlocks t.column).lexByCharacter

end

/-- The first token of a text that starts with three hyphens. -/
theorem lexNext_of_hyphens (source : List Char) :
    Yields Leads (Lexing.start ('-' :: '-' :: '-' :: source)).lexNext := by
  rw [lexNext_of_hyphen rfl rfl rfl]
  cases hmarker : (Lexing.start ('-' :: '-' :: '-' :: source)).cursor.atMarker '-' with
  | true =>
    rw [lexByCharacter_of_marker rfl hmarker, lexMarker_start]
    exact .ok ⟨_, [], rfl, by decide⟩
  | false =>
    rw [lexByCharacter_of_hyphens rfl rfl hmarker]
    refine .bind (noteCandidate_yields _) fun t ht => .ok ?_
    exact ⟨_, [], congrArg (· ++ _) ht.1, by simp⟩

end Lexing

namespace TokenStream

/-- The first token is no end of a document. -/
def Starts (x : TokenStream) : Prop := ∀ t, x.tokens.head? = some t → t.lexeme ≠ .documentEnd

theorem Starts.behind {P : Lexing → Prop} {x : Except Fault Lexing} {f : Lexing → TokenStream}
    (h : Yields P x) (hf : ∀ s, P s → (f s).Starts) : (behind x f).Starts := by
  cases x with
  | error fault => exact fun t ht => nomatch ht
  | ok s => exact hf s (h s rfl)

theorem releaseFrom_starts {s : Lexing} (fuel : Nat) (h : s.Leads) :
    (releaseFrom fuel s).Starts := by
  induction fuel generalizing s with
  | zero => exact fun t ht => nomatch ht
  | succ fuel ih =>
    obtain ⟨first, held, hheld, hfirst⟩ := id h
    have hhead (tokens : List Token) (fault : Option Fault) :
        Starts ⟨first :: tokens, fault⟩ := by
      intro t ht
      obtain rfl := Option.some.inj ht
      exact hfirst
    rw [releaseFrom_succ, hheld]
    split
    · exact hhead held none
    · refine .behind (Lexing.dropStale_yields s) fun t ht => ?_
      split
      · exact .behind (Lexing.Leads.lexNext (h.of_held ht)) fun u hu => ih hu
      · exact hhead _ _

theorem releaseFrom_of_held_nil {s : Lexing} (fuel : Nat) (hdone : s.done = false)
    (hheld : s.held = []) : releaseFrom (fuel + 1) s = behind s.lexNext (releaseFrom fuel) := by
  rw [releaseFrom_succ, hdone, hheld]
  rfl

theorem releaseFrom_of_held_cons {s : Lexing} {t : Token} {held : List Token} (fuel : Nat)
    (hdone : s.done = false) (hheld : s.held = t :: held) (hcandidates : s.candidates = []) :
    releaseFrom (fuel + 1) s =
      { releaseFrom fuel { s with held, released := s.released + 1 } with
        tokens := t :: (releaseFrom fuel { s with held, released := s.released + 1 }).tokens } := by
  have hpending : s.isPending = false := by
    unfold Lexing.isPending
    rw [hcandidates]
    rfl
  rw [releaseFrom_succ, if_neg (Bool.eq_false_iff.mp hdone), hheld,
    Lexing.dropStale_eq_self hcandidates]
  dsimp only [behind]
  rw [hpending]
  rfl

/-- A text that starts with three hyphens does not start with the end of a document. -/
theorem ofText_starts (source : List Char) : (ofText ('-' :: '-' :: '-' :: source)).Starts := by
  have hfuel : 8 * (('-' :: '-' :: '-' :: source).length + 2) = 8 * source.length + 39 + 1 := by
    simp only [List.length_cons]
    omega
  unfold ofText
  rw [hfuel, releaseFrom_of_held_nil _ rfl rfl]
  exact .behind (Lexing.lexNext_of_hyphens source) fun s hs => releaseFrom_starts _ hs

/-! ## The separator line -/

theorem fit_start {source : List Char} (h : source.head? ≠ some '\uFEFF') :
    (Cursor.start source).Fit (source.length + 1) := by
  refine ⟨Nat.lt_succ_self _, Nat.lt_succ_self _, fun _ => ?_⟩
  cases source with
  | nil => decide
  | cons x source => simpa [Cursor.start, Cursor.peek] using h

/-- The state behind a separator line whose token is released. -/
def behindMarker (source : List Char) : Lexing :=
  { Lexing.start ('-' :: '-' :: '-' :: '\n' :: source) with
    cursor := ⟨'\n' :: source, ⟨3, 0, 3⟩, source.length + 5⟩
    keyAllowed := false
    released := 1 }

/-- Behind the line feed of a separator line a text is read as from its start. -/
theorem lexNext_behindMarker {source : List Char} (h : source.head? ≠ some '\uFEFF') :
    (behindMarker source).lexNext = (Lexing.start source).shift.lexNext := by
  have hfit : (Cursor.start source).Fit (source.length + 4) := (fit_start h).mono (by omega)
  have hbound : (Cursor.start source).Fit (source.length + 5) := hfit.mono (Nat.le_succ _)
  have hbreak : (behindMarker source).cursor.skipSpaces.skipComment.lineBreak =
      (some '\n', (Cursor.start source).shift) := rfl
  have hline : Lexing.skipSeparation (source.length + 4 + 1) (behindMarker source) =
      Lexing.skipSeparation (source.length + 4) (Lexing.start source).shift :=
    Lexing.skipSeparation_of_break _ hbreak
  have hsame : Lexing.skipSeparation (source.length + 4) (Lexing.start source).shift =
      Lexing.skipSeparation (source.length + 4 + 1) (Lexing.start source).shift :=
    (Lexing.skipSeparation_shift hfit hfit).1.trans (Lexing.skipSeparation_shift hfit hbound).1.symm
  have hmark : (behindMarker source).skipByteOrderMark = behindMarker source := rfl
  have hmark' : (Lexing.start source).shift.skipByteOrderMark = (Lexing.start source).shift := rfl
  unfold Lexing.lexNext
  rw [hmark, hmark']
  change (Lexing.skipSeparation (source.length + 4 + 1) _).dropStale >>= _ =
    (Lexing.skipSeparation (source.length + 4 + 1) _).dropStale >>= _
  rw [hline, hsame]

/-- A separator line is one token, and behind it are the tokens of the text. -/
theorem ofText_separator {source : List Char} (h : source.head? ≠ some '\uFEFF') :
    ∃ rest : TokenStream, (ofText source).Matches rest ∧
      ofText ('-' :: '-' :: '-' :: '\n' :: source) =
        { rest with tokens := ⟨.documentStart, ⟨0, 0, 0⟩⟩ :: rest.tokens } := by
  refine ⟨releaseFrom (8 * source.length + 46) (Lexing.start source).shift, ?_, ?_⟩
  · have hweight : (Lexing.start source).weight = 0 := rfl
    refine releaseFrom_shift (by omega) (by omega) (Or.inr ⟨fit_start h, ?_⟩)
    rw [hweight]
    omega
  · have hfuel : 8 * (('-' :: '-' :: '-' :: '\n' :: source).length + 2) =
        8 * source.length + 45 + 1 + 1 + 1 := by
      simp only [List.length_cons]
      omega
    have hbehind (fuel : Nat) : releaseFrom (fuel + 1) (behindMarker source) =
        releaseFrom (fuel + 1) (Lexing.start source).shift := by
      rw [releaseFrom_of_held_nil _ rfl rfl, releaseFrom_of_held_nil _ rfl rfl,
        lexNext_behindMarker h]
    unfold ofText
    rw [hfuel, releaseFrom_of_held_nil _ rfl rfl, Lexing.lexNext_of_hyphen rfl rfl rfl,
      Lexing.lexByCharacter_of_marker rfl rfl, Lexing.lexMarker_start, behind_ok,
      releaseFrom_of_held_cons _ rfl rfl rfl, ← hbehind]
    rfl

end TokenStream

end Columnar.Yaml
