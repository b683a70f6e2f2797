import Columnar.Proofs.Yaml.Lexeme

/-!
# What the tokens of a text may be refused for

One step of the tokenizer moves forward in the text and refuses only what is written there. Main
statement, by induction on the steps: where the token stream of a text ends with a refusal, the
refused construct is written in the text.
-/

namespace Columnar.Yaml

namespace Lexing

/-- A step of the tokenizer from a state. -/
abbrev Steps (s : Lexing) (x : Except Fault Lexing) : Prop :=
  Reads s.cursor.rest (fun t => t.cursor.rest) x

variable {s : Lexing}

theorem Steps.stay {t : Lexing} (h : t.cursor.rest = s.cursor.rest) : s.Steps (.ok t) :=
  .ok (h ▸ List.suffix_refl _)

/-! ## Keys and blocks -/

theorem dropStale_steps : s.Steps s.dropStale := by
  unfold dropStale
  split
  · exact .marked
  · exact .stay rfl

theorem dropCandidate_steps : s.Steps s.dropCandidate := by
  unfold dropCandidate
  split
  · exact .stay rfl
  split
  · exact .marked
  · exact .stay rfl

theorem noteCandidate_steps : s.Steps s.noteCandidate := by
  unfold noteCandidate
  split
  · exact .bind dropCandidate_steps fun t => Steps.stay rfl
  · exact .stay rfl

theorem closeBlocksFrom_cursor (column : Int) (indents : List Int) (s : Lexing) :
    (closeBlocksFrom column indents s).cursor = s.cursor := by
  induction indents generalizing s with
  | nil => rfl
  | cons outer indents ih =>
    unfold closeBlocksFrom
    split
    · rw [ih]
      rfl
    · rfl

theorem closeBlocks_cursor (column : Int) (s : Lexing) :
    (s.closeBlocks column).cursor = s.cursor := by
  unfold closeBlocks
  split
  · exact closeBlocksFrom_cursor ..
  · rfl

theorem openIfBlock_cursor (lexeme : Lexeme) (s : Lexing) :
    (s.openIfBlock lexeme).cursor = s.cursor := by
  unfold openIfBlock openBlock
  split
  · split <;> rfl
  · rfl

theorem requireKeyAllowed_steps {problem : Problem} :
    Reads s.cursor.rest (fun _ => s.cursor.rest) (s.requireKeyAllowed problem) := by
  unfold requireKeyAllowed
  split
  · exact .marked
  · exact .ok (List.suffix_refl _)

theorem endBlocks_steps : s.Steps s.endBlocks := by
  have hclose := congrArg Cursor.rest (closeBlocks_cursor (-1) s)
  have hdrop := dropCandidate_steps (s := s.closeBlocks (-1))
  rw [Steps, hclose] at hdrop
  exact .bind hdrop fun t => Steps.stay rfl

/-! ## The kinds of token -/

theorem lexStreamEnd_steps : s.Steps s.lexStreamEnd := by
  have hclose := congrArg Cursor.rest (closeBlocks_cursor (-1) s)
  have hdrop := dropCandidate_steps (s := s.closeBlocks (-1))
  rw [Steps, hclose] at hdrop
  exact .bind hdrop fun t => Steps.stay rfl

theorem lexDirective_steps : s.Steps s.lexDirective :=
  .bind endBlocks_steps fun t => .bind (Cursor.directive_reads t.cursor) fun _ =>
    .ok (List.suffix_refl _)

theorem lexMarker_steps {lexeme : Lexeme} : s.Steps (s.lexMarker lexeme) :=
  .bind endBlocks_steps fun t => .ok (Cursor.skip_suffix 3 t.cursor)

theorem lexFlowStart_steps {lexeme : Lexeme} : s.Steps (s.lexFlowStart lexeme) :=
  .bind noteCandidate_steps fun t => .ok t.cursor.next_suffix

theorem lexFlowEnd_steps {lexeme : Lexeme} : s.Steps (s.lexFlowEnd lexeme) :=
  .bind dropCandidate_steps fun t => .ok t.cursor.next_suffix

/-- An indicator behind which a key may start or not. -/
theorem lexIndicator_steps {t : Lexing} {lexeme : Lexeme} (h : t.cursor = s.cursor) :
    s.Steps (do return (← t.dropCandidate).lexIndicator lexeme) := by
  have hdrop := dropCandidate_steps (s := t)
  rw [Steps, h] at hdrop
  exact .bind hdrop fun u => .ok u.cursor.next_suffix

theorem lexComma_steps : s.Steps s.lexComma := lexIndicator_steps rfl

theorem lexDash_steps : s.Steps s.lexDash :=
  .bind requireKeyAllowed_steps fun _ =>
    lexIndicator_steps (openIfBlock_cursor .blockSequenceStart s)

theorem lexQuestionMark_steps : s.Steps s.lexQuestionMark :=
  .bind requireKeyAllowed_steps fun _ =>
    lexIndicator_steps (openIfBlock_cursor .blockMappingStart s)

theorem lexColon_steps : s.Steps s.lexColon := by
  unfold lexColon
  split
  · refine .ok ?_
    split
    · exact s.cursor.next_suffix
    · exact s.cursor.next_suffix
  · exact .bind requireKeyAllowed_steps fun _ =>
      lexIndicator_steps (openIfBlock_cursor .blockMappingStart s)

theorem lexWord_steps {read : Cursor → Except Fault (Lexeme × Cursor)}
    (h : ∀ c, ReadsFrom c (read c)) : s.Steps (s.lexWord read) :=
  .bind noteCandidate_steps fun t => .bind (h t.cursor) fun _ => .ok (List.suffix_refl _)

theorem lexReference_steps : s.Steps s.lexReference :=
  lexWord_steps fun c => .map (Cursor.anchorName_reads _ c) fun _ => rfl

theorem lexAnchor_steps : s.Steps s.lexAnchor :=
  lexWord_steps fun c => .map (Cursor.anchorName_reads _ c) fun _ => rfl

theorem lexQuoted_steps : s.Steps s.lexQuoted :=
  lexWord_steps fun c => .map (Cursor.quotedScalar_reads c) fun _ => rfl

theorem lexBlockScalar_steps {folded : Bool} : s.Steps (s.lexBlockScalar folded) := by
  have hdrop : s.Steps { s with keyAllowed := true }.dropCandidate :=
    dropCandidate_steps (s := { s with keyAllowed := true })
  exact .bind hdrop fun t => .bind (Cursor.blockScalar_reads folded t.indent t.cursor) fun _ =>
    .ok (List.suffix_refl _)

theorem lexPlain_steps : s.Steps s.lexPlain :=
  .bind noteCandidate_steps fun _ => .ok (Cursor.plainScalar_suffix ..)

theorem lexByCharacter_steps : s.Steps s.lexByCharacter := by
  unfold lexByCharacter
  refine .ite lexStreamEnd_steps (.ite lexDirective_steps ?_)
  refine .ite lexMarker_steps (.ite lexMarker_steps ?_)
  refine .ite lexFlowStart_steps (.ite lexFlowStart_steps ?_)
  refine .ite lexFlowEnd_steps (.ite lexFlowEnd_steps ?_)
  refine .ite lexComma_steps (.ite lexDash_steps ?_)
  refine .ite lexQuestionMark_steps (.ite lexColon_steps ?_)
  refine .ite lexReference_steps (.ite lexAnchor_steps ?_)
  refine .ite (lexWord_steps Cursor.tag_reads) ?_
  refine .ite lexBlockScalar_steps (.ite lexBlockScalar_steps ?_)
  exact .ite lexQuoted_steps (.ite lexPlain_steps .marked)

theorem skipByteOrderMark_suffix (s : Lexing) :
    s.skipByteOrderMark.cursor.rest <:+ s.cursor.rest := by
  unfold skipByteOrderMark
  split
  · exact s.cursor.next_suffix
  · exact List.suffix_refl _

theorem skipSeparation_suffix (fuel : Nat) (s : Lexing) :
    (skipSeparation fuel s).cursor.rest <:+ s.cursor.rest := by
  induction fuel generalizing s with
  | zero => exact List.suffix_refl _
  | succ fuel ih =>
    have hcomment := (Cursor.skipComment_suffix _).trans s.cursor.skipSpaces_suffix
    unfold skipSeparation
    dsimp only
    split
    · exact hcomment
    · rename_i hbreak
      exact (ih _).trans ((Cursor.lineBreak_suffix_of_eq hbreak).trans hcomment)

theorem lexNext_steps : s.Steps s.lexNext := by
  have hmark := s.skipByteOrderMark_suffix
  have hskip := skipSeparation_suffix s.skipByteOrderMark.cursor.bound s.skipByteOrderMark
  refine .mono (hskip.trans hmark) (.bind dropStale_steps fun t => ?_)
  have hlex := lexByCharacter_steps (s := t.closeBlocks t.column)
  rwa [Steps, congrArg Cursor.rest (closeBlocks_cursor t.column t)] at hlex

end Lexing

namespace TokenStream

/-- A refusal that ends what is lexed behind a state is written in the text from that state on. -/
theorem refusal_of_lexNext {r : Refusal} {fuel : Nat}
    (ih : ∀ s : Lexing, (releaseFrom fuel s).fault = some (.refused r) →
      r.WrittenIn s.cursor.rest) {t : Lexing}
    (h : (match t.lexNext with
      | .error fault => ⟨[], some fault⟩
      | .ok u => releaseFrom fuel u : TokenStream).fault = some (.refused r)) :
    r.WrittenIn t.cursor.rest := by
  have hstep := Lexing.lexNext_steps (s := t)
  cases hnext : t.lexNext with
  | error fault =>
    rw [hnext] at h
    cases h
    exact hstep.refusal r hnext
  | ok u =>
    rw [hnext] at h
    exact (ih u h).mono (hstep.suffix u hnext)

/-- What ends a token stream with a refusal is written in the text from the first state on. -/
theorem releaseFrom_refusal {r : Refusal} (fuel : Nat) (s : Lexing)
    (h : (releaseFrom fuel s).fault = some (.refused r)) : r.WrittenIn s.cursor.rest := by
  induction fuel generalizing s with
  | zero => cases h
  | succ fuel ih =>
    unfold releaseFrom at h
    split at h
    · cases h
    split at h
    · exact refusal_of_lexNext ih h
    · rename_i token held hheld
      have hstale := Lexing.dropStale_steps (s := s)
      cases hdrop : s.dropStale with
      | error fault =>
        rw [hdrop] at h
        cases h
        exact hstale.refusal r hdrop
      | ok t =>
        have hsuffix := hstale.suffix t hdrop
        rw [hdrop] at h
        dsimp only at h
        split at h
        · exact (refusal_of_lexNext ih h).mono hsuffix
        · exact (ih _ h).mono hsuffix

theorem ofText_refusal {source : List Char} {r : Refusal}
    (h : (ofText source).fault = some (.refused r)) : r.WrittenIn source :=
  releaseFrom_refusal _ _ h

end TokenStream

end Columnar.Yaml
