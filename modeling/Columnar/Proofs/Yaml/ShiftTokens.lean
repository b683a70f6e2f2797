import Columnar.Proofs.Yaml.ShiftLexeme
import Columnar.Proofs.Yaml.TokenStream

/-!
# Tokens behind a separator line

A separator line in front of a text is a token of its own. Behind it the tokenizer goes through the
states that it goes through without the line, at later positions and one token later. Main
statement: but for that first token, the tokens of the text are the same, and so is the way in
which they end.
-/

namespace Columnar.Yaml

def KeyCandidate.shift (k : KeyCandidate) : KeyCandidate :=
  ⟨k.token + 1, k.required, k.mark.shift⟩

def Token.shift (t : Token) : Token := ⟨t.lexeme, t.mark.shift⟩

namespace Lexing

/-- The state with a separator line in front of the text, whose token is released. -/
def shift (s : Lexing) : Lexing :=
  { s with
    cursor := s.cursor.shift
    candidates := s.candidates.map fun e => (e.1, e.2.shift)
    held := s.held.map Token.shift
    released := s.released + 1 }

/-- How many tokens are still to be released without reading on: those held back, and the ends of
the block collections. -/
def weight (s : Lexing) : Nat := s.held.length + s.indents.length

/-- A step that stays where it is, without and with a separator line in front of the text. -/
abbrev StaysAlike (c : Cursor) (w : Nat) (x y : Except Fault Lexing) : Prop :=
  Alike (fun t u => u = t.shift ∧ t.cursor = c ∧ t.weight ≤ w) x y

/-- A step after which fewer than `n` characters are left, without and with a separator line in
front of the text. -/
abbrev MovesAlike (n w : Nat) (x y : Except Fault Lexing) : Prop :=
  Alike (fun t u => u = t.shift ∧ t.cursor.Fit n ∧ t.weight ≤ w) x y

variable {s : Lexing} {n w : Nat}

theorem StaysAlike.stay {t : Lexing} (ht : t.cursor = s.cursor) (hw : t.weight ≤ w) :
    StaysAlike s.cursor w (.ok t) (.ok t.shift) := .ok ⟨rfl, ht, hw⟩

theorem MovesAlike.move {t : Lexing} (ht : t.cursor.Fit n) (hw : t.weight ≤ w) :
    MovesAlike n w (.ok t) (.ok t.shift) := .ok ⟨rfl, ht, hw⟩

/-- Behind a step that stays. -/
theorem StaysAlike.bind {β γ : Type} {R : β → γ → Prop} {c : Cursor}
    {x y : Except Fault Lexing} {f : Lexing → Except Fault β} {g : Lexing → Except Fault γ}
    (h : StaysAlike c w x y)
    (hf : ∀ t : Lexing, t.cursor = c → t.weight ≤ w → Alike R (f t) (g t.shift)) :
    Alike R (x >>= f) (y >>= g) := by
  refine Alike.bind h ?_
  rintro t _ ⟨rfl, hcursor, hweight⟩
  exact hf t hcursor hweight

/-! ## Keys and blocks -/

@[simp] theorem cursor_shift (s : Lexing) : s.shift.cursor = s.cursor.shift := rfl

@[simp] theorem inBlock_shift (s : Lexing) : s.shift.inBlock = s.inBlock := rfl

@[simp] theorem column_shift (s : Lexing) : s.shift.column = s.column := rfl

@[simp] theorem opens_shift (column : Int) (s : Lexing) :
    s.shift.opens column = s.opens column := rfl

theorem emit_shift (lexeme : Lexeme) (s : Lexing) :
    s.shift.emit lexeme s.shift.mark = (s.emit lexeme s.mark).shift := by
  simp [emit, shift, mark, Token.shift]

theorem weight_emit (lexeme : Lexeme) (m : Mark) (s : Lexing) :
    (s.emit lexeme m).weight = s.weight + 1 := by
  simp only [weight, emit, List.length_append, List.length_cons, List.length_nil]
  omega

theorem isStale_shift (s : Lexing) (k : KeyCandidate) : s.shift.isStale k.shift = s.isStale k := by
  have hline : ((k.mark.line + 1 : Nat) != s.mark.line + 1) = (k.mark.line != s.mark.line) := by
    simp [bne]
  have hindex : s.mark.index + 4 - (k.mark.index + 4) = s.mark.index - k.mark.index := by omega
  change (((k.mark.line + 1 : Nat) != s.mark.line + 1) ||
    decide (maxKeyLength < s.mark.index + 4 - (k.mark.index + 4))) = _
  rw [hline, hindex]
  rfl

theorem dropStale_shift (s : Lexing) :
    StaysAlike s.cursor s.weight s.dropStale s.shift.dropStale := by
  have hfind : (s.shift.candidates.find? fun e => s.shift.isStale e.2 && e.2.required) =
      (s.candidates.find? fun e => s.isStale e.2 && e.2.required).map
        fun e => (e.1, e.2.shift) := by
    simp only [shift, List.find?_map]
    congr 2
    funext e
    exact congrArg (· && e.2.required) (isStale_shift s e.2)
  have hfilter : (s.shift.candidates.filter fun e => !s.shift.isStale e.2) =
      (s.candidates.filter fun e => !s.isStale e.2).map fun e => (e.1, e.2.shift) := by
    simp only [shift, List.filter_map]
    congr 2
    funext e
    exact congrArg (!·) (isStale_shift s e.2)
  unfold dropStale
  rw [hfind, hfilter]
  cases s.candidates.find? fun e => s.isStale e.2 && e.2.required with
  | some e => exact .marked
  | none => exact .stay rfl (Nat.le_refl _)

theorem lookup_shift (s : Lexing) (depth : Int) :
    s.shift.candidates.lookup depth = (s.candidates.lookup depth).map KeyCandidate.shift := by
  simp only [shift]
  induction s.candidates with
  | nil => rfl
  | cons e candidates ih =>
    rw [List.map_cons, List.lookup_cons, List.lookup_cons, ih]
    split <;> rfl

theorem filter_shift (s : Lexing) (depth : Int) :
    (s.shift.candidates.filter fun e => e.1 != depth) =
      (s.candidates.filter fun e => e.1 != depth).map fun e => (e.1, e.2.shift) := by
  simp only [shift, List.filter_map]
  rfl

theorem dropCandidate_shift (s : Lexing) :
    StaysAlike s.cursor s.weight s.dropCandidate s.shift.dropCandidate := by
  have hdepth : s.shift.flowDepth = s.flowDepth := rfl
  unfold dropCandidate
  rw [hdepth, lookup_shift, filter_shift]
  cases s.candidates.lookup s.flowDepth with
  | none => exact .stay rfl (Nat.le_refl _)
  | some k =>
    simp only [Option.map_some]
    exact .ite (fun _ => .marked) fun _ => StaysAlike.stay rfl (Nat.le_refl _)

theorem dropStale_yields (s : Lexing) : Yields (fun t => t.held = s.held) s.dropStale := by
  unfold dropStale
  split
  · exact .error
  · exact .ok rfl

theorem dropCandidate_yields (s : Lexing) :
    Yields (fun t => t.held = s.held ∧ t.inBlock = s.inBlock) s.dropCandidate := by
  unfold dropCandidate
  split
  · exact .ok ⟨rfl, rfl⟩
  · exact .ite .error (.ok ⟨rfl, rfl⟩)

theorem noteCandidate_yields (s : Lexing) :
    Yields (fun t => t.held = s.held ∧ t.inBlock = s.inBlock) s.noteCandidate :=
  .ite (.bind (dropCandidate_yields s) fun _ h => .ok h) (.ok ⟨rfl, rfl⟩)

theorem noteCandidate_shift (s : Lexing) :
    StaysAlike s.cursor s.weight s.noteCandidate s.shift.noteCandidate := by
  unfold noteCandidate
  refine .ite (fun _ => ?_) fun _ => StaysAlike.stay rfl (Nat.le_refl _)
  refine StaysAlike.bind (dropCandidate_shift s) fun t ht hw => ?_
  refine Alike.ok ⟨?_, ht, hw⟩
  have htoken : t.shift.released + t.shift.held.length = t.released + t.held.length + 1 := by
    simp only [shift, List.length_map]
    omega
  rw [htoken]
  simp only [shift, List.map_append]
  rfl

theorem closeBlocksFrom_shift {column : Int} {indents : List Int} (hs : s.indents = indents) :
    closeBlocksFrom column indents s.shift = (closeBlocksFrom column indents s).shift ∧
      (closeBlocksFrom column indents s).weight = s.weight := by
  induction indents generalizing s with
  | nil => exact ⟨rfl, rfl⟩
  | cons outer indents ih =>
    unfold closeBlocksFrom
    have hindent : s.shift.indent = s.indent := rfl
    rw [hindent]
    by_cases hcolumn : column < s.indent
    · rw [if_pos hcolumn, if_pos hcolumn]
      have hemit :
          { (s.shift.emit .blockEnd s.shift.mark) with indent := outer, indents := indents } =
            Lexing.shift { (s.emit .blockEnd s.mark) with indent := outer, indents } := by
        rw [emit_shift]
        rfl
      have hweight : ({ (s.emit .blockEnd s.mark) with indent := outer, indents := indents } :
          Lexing).weight = s.weight := by
        simp only [weight, emit, hs, List.length_append, List.length_cons, List.length_nil]
        omega
      rw [hemit, ← hweight]
      exact ih rfl
    · rw [if_neg hcolumn, if_neg hcolumn]
      exact ⟨rfl, rfl⟩

theorem closeBlocks_shift (column : Int) (s : Lexing) :
    s.shift.closeBlocks column = (s.closeBlocks column).shift ∧
      (s.closeBlocks column).weight = s.weight := by
  unfold closeBlocks
  rw [inBlock_shift]
  split
  · exact closeBlocksFrom_shift rfl
  · exact ⟨rfl, rfl⟩

theorem openIfBlock_shift (lexeme : Lexeme) (s : Lexing) :
    s.shift.openIfBlock lexeme = (s.openIfBlock lexeme).shift ∧
      (s.openIfBlock lexeme).weight ≤ s.weight + 2 := by
  unfold openIfBlock openBlock
  rw [inBlock_shift, column_shift, opens_shift]
  split
  · split
    · refine ⟨emit_shift lexeme (s.pushIndent s.column), ?_⟩
      rw [weight_emit]
      simp only [weight, pushIndent, List.length_cons]
      omega
    · exact ⟨rfl, Nat.le_add_right _ 2⟩
  · exact ⟨rfl, Nat.le_add_right _ 2⟩

theorem requireKeyAllowed_shift {problem : Problem} {x y : Except Fault Lexing}
    (h : MovesAlike n w x y) :
    MovesAlike n w (s.requireKeyAllowed problem >>= fun _ => x)
      (s.shift.requireKeyAllowed problem >>= fun _ => y) := by
  have hallowed : s.shift.keyAllowed = s.keyAllowed := rfl
  unfold requireKeyAllowed
  rw [inBlock_shift, hallowed]
  by_cases hkey : (s.inBlock && !s.keyAllowed) = true
  · rw [if_pos hkey, if_pos hkey]
    exact .marked
  · rw [if_neg hkey, if_neg hkey]
    exact h

theorem endBlocks_shift (s : Lexing) :
    StaysAlike s.cursor s.weight s.endBlocks s.shift.endBlocks := by
  obtain ⟨hsame, hweight⟩ := closeBlocks_shift (-1) s
  unfold endBlocks
  rw [hsame]
  refine StaysAlike.bind (dropCandidate_shift _) fun t ht hw => ?_
  exact .ok ⟨rfl, ht.trans (closeBlocks_cursor (-1) s), hweight ▸ hw⟩

theorem insertAt_shift (k : KeyCandidate) (lexemes : List Lexeme) (s : Lexing) :
    s.shift.insertAt k.shift lexemes = (s.insertAt k lexemes).shift := by
  have hplace : k.token + 1 - (s.released + 1) = k.token - s.released := by omega
  simp only [insertAt, shift, KeyCandidate.shift, hplace, List.map_append, List.map_take,
    List.map_drop, List.map_map]
  rfl

theorem weight_insertAt (k : KeyCandidate) (lexemes : List Lexeme) (s : Lexing) :
    (s.insertAt k lexemes).weight = s.weight + lexemes.length := by
  simp only [weight, insertAt, List.length_append, List.length_map, List.length_take,
    List.length_drop]
  omega

/-! ## The kinds of token -/

/-- The end of the text is the last token; all that is held back is released. -/
theorem lexStreamEnd_shift (s : Lexing) :
    Alike (fun t u => u = t.shift ∧ t.done = true) s.lexStreamEnd s.shift.lexStreamEnd := by
  obtain ⟨hsame, -⟩ := closeBlocks_shift (-1) s
  unfold lexStreamEnd
  rw [hsame]
  refine StaysAlike.bind (dropCandidate_shift _) fun t ht hw => ?_
  refine .ok ⟨?_, rfl⟩
  rw [emit_shift]
  rfl

theorem lexIndicator_shift (lexeme : Lexeme) (s : Lexing) :
    s.shift.lexIndicator lexeme = (s.lexIndicator lexeme).shift := by
  unfold lexIndicator
  rw [emit_shift, cursor_shift, Cursor.next_shift]
  rfl

/-- An indicator behind a step that stays. -/
theorem lexIndicator_moves {t : Lexing} (lexeme : Lexeme) (h : s.cursor.Fit (n + 1))
    (hpeek : s.cursor.peek ≠ endChar) (ht : t.cursor = s.cursor) (hw : t.weight ≤ w) :
    MovesAlike n (w + 1) (.ok (t.lexIndicator lexeme)) (.ok (t.shift.lexIndicator lexeme)) := by
  rw [lexIndicator_shift]
  refine .move ?_ ?_
  · change t.cursor.next.Fit n
    rw [ht]
    exact h.next_lt hpeek
  · have hweight : (t.lexIndicator lexeme).weight = t.weight + 1 := weight_emit lexeme t.mark t
    omega

section
variable (h : s.cursor.Fit (n + 1)) (hpeek : s.cursor.peek ≠ endChar)
include h hpeek

theorem lexDirective_shift :
    MovesAlike n (s.weight + 1) s.lexDirective s.shift.lexDirective := by
  refine StaysAlike.bind (endBlocks_shift s) fun t ht hw => ?_
  rw [← ht] at h hpeek
  refine Alike.bind (Cursor.directive_shift h hpeek) ?_
  rintro ⟨lexeme, rest⟩ _ ⟨rfl, hrest⟩
  refine .ok ⟨?_, hrest, ?_⟩
  · rw [emit_shift]
    rfl
  · have hweight := weight_emit lexeme t.mark t
    change (t.emit lexeme t.mark).weight ≤ _
    omega

theorem lexMarker_shift (lexeme : Lexeme) :
    MovesAlike n (s.weight + 1) (s.lexMarker lexeme) (s.shift.lexMarker lexeme) := by
  refine StaysAlike.bind (endBlocks_shift s) fun t ht hw => ?_
  rw [← ht] at h hpeek
  refine .ok ⟨?_, h.skip_lt hpeek 2, ?_⟩
  · rw [emit_shift, cursor_shift, Cursor.skip_shift]
    rfl
  · have hweight := weight_emit lexeme t.mark t
    change (t.emit lexeme t.mark).weight ≤ _
    omega

theorem lexFlowStart_shift (lexeme : Lexeme) :
    MovesAlike n (s.weight + 1) (s.lexFlowStart lexeme) (s.shift.lexFlowStart lexeme) :=
  StaysAlike.bind (noteCandidate_shift s) fun _ ht hw => lexIndicator_moves lexeme h hpeek ht hw

theorem lexFlowEnd_shift (lexeme : Lexeme) :
    MovesAlike n (s.weight + 1) (s.lexFlowEnd lexeme) (s.shift.lexFlowEnd lexeme) :=
  StaysAlike.bind (dropCandidate_shift s) fun _ ht hw => lexIndicator_moves lexeme h hpeek ht hw

/-- An indicator at which the possible key is dropped. -/
theorem dropCandidate_lexIndicator_shift {t : Lexing} (lexeme : Lexeme) (ht : t.cursor = s.cursor)
    (hw : t.weight ≤ w) :
    MovesAlike n (w + 1) (do return (← t.dropCandidate).lexIndicator lexeme)
      (do return (← t.shift.dropCandidate).lexIndicator lexeme) :=
  StaysAlike.bind (dropCandidate_shift t) fun _ hu hv =>
    lexIndicator_moves lexeme h hpeek (hu.trans ht) (Nat.le_trans hv hw)

theorem lexComma_shift : MovesAlike n (s.weight + 1) s.lexComma s.shift.lexComma :=
  dropCandidate_lexIndicator_shift (t := { s with keyAllowed := true }) h hpeek .flowEntry rfl
    (Nat.le_refl _)

theorem lexDash_shift : MovesAlike n (s.weight + 3) s.lexDash s.shift.lexDash := by
  obtain ⟨hsame, hweight⟩ := openIfBlock_shift .blockSequenceStart s
  refine requireKeyAllowed_shift ?_
  rw [hsame]
  exact dropCandidate_lexIndicator_shift
    (t := { s.openIfBlock .blockSequenceStart with keyAllowed := true }) h hpeek .blockEntry
    (openIfBlock_cursor .blockSequenceStart s) hweight

theorem lexQuestionMark_shift :
    MovesAlike n (s.weight + 3) s.lexQuestionMark s.shift.lexQuestionMark := by
  obtain ⟨hsame, hweight⟩ := openIfBlock_shift .blockMappingStart s
  refine requireKeyAllowed_shift ?_
  rw [hsame]
  exact dropCandidate_lexIndicator_shift
    (t := { s.openIfBlock .blockMappingStart with keyAllowed := s.inBlock }) h hpeek .key
    (openIfBlock_cursor .blockMappingStart s) hweight

theorem lexColon_shift : MovesAlike n (s.weight + 4) s.lexColon s.shift.lexColon := by
  have hlookup : s.shift.candidates.lookup s.shift.flowDepth =
      (s.candidates.lookup s.flowDepth).map KeyCandidate.shift := lookup_shift s s.flowDepth
  unfold lexColon
  rw [hlookup]
  cases s.candidates.lookup s.flowDepth with
  | some k =>
    have hstate : { s.shift with
        candidates := s.shift.candidates.filter fun e => e.1 != s.shift.flowDepth
        keyAllowed := false } = Lexing.shift { s with
          candidates := s.candidates.filter fun e => e.1 != s.flowDepth
          keyAllowed := false } := by
      rw [filter_shift]
      rfl
    simp only [Option.map_some]
    rw [hstate]
    generalize ht : ({ s with
        candidates := s.candidates.filter fun e => e.1 != s.flowDepth
        keyAllowed := false } : Lexing) = t
    have hcursor : t.cursor = s.cursor := by rw [← ht]
    have hweight : t.weight = s.weight := by rw [← ht]; rfl
    have hopens : (t.shift.inBlock && t.shift.opens k.shift.mark.column) =
        (t.inBlock && t.opens k.mark.column) := rfl
    rw [hopens]
    split
    · have hpush : t.shift.pushIndent k.shift.mark.column = (t.pushIndent k.mark.column).shift :=
        rfl
      have hpushed : (t.pushIndent k.mark.column).weight = t.weight + 1 := rfl
      rw [hpush, insertAt_shift]
      refine lexIndicator_moves .value h hpeek hcursor ?_
      rw [weight_insertAt, hpushed, hweight]
      exact Nat.le_refl _
    · rw [insertAt_shift]
      refine lexIndicator_moves .value h hpeek hcursor ?_
      rw [weight_insertAt, hweight]
      exact Nat.add_le_add_left (by decide) _
  | none =>
    obtain ⟨hsame, hweight⟩ := openIfBlock_shift .blockMappingStart s
    refine requireKeyAllowed_shift ?_
    rw [hsame]
    exact dropCandidate_lexIndicator_shift
      (t := { s.openIfBlock .blockMappingStart with keyAllowed := s.inBlock }) h hpeek .value
      (openIfBlock_cursor .blockMappingStart s) (Nat.le_succ_of_le hweight)

end

/-- A word that `read` reads from where the state is. -/
theorem lexWord_shift {read : Cursor → Except Fault (Lexeme × Cursor)}
    (h : Shifts n (read s.cursor) (read s.cursor.shift)) :
    MovesAlike n (s.weight + 1) (s.lexWord read) (s.shift.lexWord read) := by
  refine StaysAlike.bind (noteCandidate_shift s) fun t ht hw => ?_
  rw [← ht] at h
  refine Alike.bind h ?_
  rintro ⟨lexeme, rest⟩ _ ⟨rfl, hrest⟩
  refine .ok ⟨?_, hrest, ?_⟩
  · rw [emit_shift]
    rfl
  · have hweight := weight_emit lexeme t.mark t
    change (t.emit lexeme t.mark).weight ≤ _
    omega

theorem Shifts.lexeme {α : Type} {x y : Except Fault (α × Cursor)} (h : Shifts n x y)
    (f : α → Lexeme) :
    Shifts n (x.map fun r => (f r.1, r.2)) (y.map fun r => (f r.1, r.2)) := by
  refine Alike.map h ?_
  rintro ⟨a, c⟩ _ ⟨rfl, hc⟩
  exact ⟨rfl, hc⟩

section
variable (h : s.cursor.Fit (n + 1)) (hpeek : s.cursor.peek ≠ endChar)
include h hpeek

theorem lexReference_shift : MovesAlike n (s.weight + 1) s.lexReference s.shift.lexReference :=
  lexWord_shift (Shifts.lexeme (Cursor.anchorName_shift h hpeek) .reference)

theorem lexAnchor_shift : MovesAlike n (s.weight + 1) s.lexAnchor s.shift.lexAnchor :=
  lexWord_shift (Shifts.lexeme (Cursor.anchorName_shift h hpeek) .anchor)

theorem lexQuoted_shift : MovesAlike n (s.weight + 1) s.lexQuoted s.shift.lexQuoted :=
  lexWord_shift (Shifts.lexeme (Cursor.quotedScalar_shift h hpeek) fun text => .scalar text false)

theorem lexBlockScalar_shift (folded : Bool) :
    MovesAlike n (s.weight + 1) (s.lexBlockScalar folded) (s.shift.lexBlockScalar folded) := by
  have hdrop : StaysAlike s.cursor s.weight { s with keyAllowed := true }.dropCandidate
      { s.shift with keyAllowed := true }.dropCandidate :=
    dropCandidate_shift { s with keyAllowed := true }
  refine StaysAlike.bind hdrop fun t ht hw => ?_
  rw [← ht] at h hpeek
  refine Alike.bind (Cursor.blockScalar_shift h hpeek) ?_
  rintro ⟨text, rest⟩ _ ⟨rfl, hrest⟩
  refine .ok ⟨?_, hrest, ?_⟩
  · rw [emit_shift]
    rfl
  · have hweight := weight_emit (.scalar text false) t.mark t
    change (t.emit (.scalar text false) t.mark).weight ≤ _
    omega

end

/-- The characters that end a plain scalar inside flow collections start none by themselves. -/
theorem isIndicator_of_contains {x : Char} (h : ",?[]\x7b\x7d".toList.contains x = true) :
    isIndicator x = true := by
  have hflow : ",?[]\x7b\x7d".toList = [',', '?', '[', ']', '{', '}'] := by decide
  rw [hflow] at h
  have hx : x = ',' ∨ x = '?' ∨ x = '[' ∨ x = ']' ∨ x = '{' ∨ x = '}' := by simpa using h
  rcases hx with rfl | rfl | rfl | rfl | rfl | rfl <;> decide

theorem endsPlain_of_not_isIndicator {inFlow : Bool} {x : Char} {after : List Char}
    (hgap : isGap x = false) (hindicator : isIndicator x = false) :
    Cursor.endsPlain inFlow x after = false := by
  have hflow : ",?[]\x7b\x7d".toList.contains x = false := by
    cases hcontains : ",?[]\x7b\x7d".toList.contains x with
    | false => rfl
    | true => rw [isIndicator_of_contains hcontains] at hindicator; cases hindicator
  have hcolon : (x == ':') = false := by
    rw [beq_eq_false_iff_ne]
    rintro rfl
    cases hindicator
  unfold Cursor.endsPlain
  rw [hgap, hcolon, hflow]
  simp

/-- Where a plain scalar may start, it does not end at once. -/
theorem plainRun_of_atPlain (h : s.atPlain = true) :
    s.cursor.peek ≠ '#' ∧ Cursor.plainRun (!s.inBlock) s.cursor.rest ≠ [] := by
  have hends : s.cursor.peek ≠ '#' ∧ s.cursor.peek ≠ endChar ∧
      Cursor.endsPlain (!s.inBlock) s.cursor.peek s.cursor.next.rest = false := by
    have hsecond (c : Cursor) : c.next.rest.headD endChar = c.peekAt 1 := by
      obtain ⟨_ | ⟨x, _ | ⟨y, rest⟩⟩, mark, bound⟩ := c <;> rfl
    unfold atPlain at h
    rcases Bool.or_eq_true_iff.mp h with hstart | hbehind
    · obtain ⟨hgap, hindicator⟩ :
          isGap s.cursor.peek = false ∧ isIndicator s.cursor.peek = false := by
        simpa using hstart
      refine ⟨?_, ?_, endsPlain_of_not_isIndicator hgap hindicator⟩
      · intro hpeek
        rw [hpeek] at hindicator
        cases hindicator
      · intro hpeek
        rw [hpeek] at hgap
        cases hgap
    · obtain ⟨hgap, hpeek⟩ : isGap (s.cursor.peekAt 1) = false ∧ (s.cursor.peek = '-' ∨
          s.inBlock = true ∧ (s.cursor.peek = '?' ∨ s.cursor.peek = ':')) := by
        simpa using hbehind
      unfold Cursor.endsPlain
      rw [hsecond]
      dsimp only
      rw [hgap]
      rcases hpeek with hpeek | ⟨hblock, hpeek | hpeek⟩
      · rw [hpeek]
        refine ⟨by decide, by decide, ?_⟩
        cases s.inBlock <;> rfl
      · rw [hpeek, hblock]
        exact ⟨by decide, by decide, by simp [isGap, isWhite, isBreakOrEnd, isBreak, endChar]⟩
      · rw [hpeek, hblock]
        exact ⟨by decide, by decide, by simp [isGap, isWhite, isBreakOrEnd, isBreak, endChar]⟩
  obtain ⟨hcomment, hend, hends⟩ := hends
  refine ⟨hcomment, ?_⟩
  rw [Cursor.rest_of_peek rfl hend, Cursor.plainRun, hends]
  exact List.cons_ne_nil _ _

theorem lexPlain_shift (h : s.cursor.Fit (n + 1)) (hplain : s.atPlain = true) :
    MovesAlike n (s.weight + 1) s.lexPlain s.shift.lexPlain := by
  obtain ⟨hpeek, hrun⟩ := plainRun_of_atPlain hplain
  refine Alike.bind ((noteCandidate_shift s).and (noteCandidate_yields s)) ?_
  rintro t _ ⟨⟨rfl, ht, hw⟩, -, hblock⟩
  rw [← ht, ← hblock] at hrun
  rw [← ht] at h hpeek
  have hindent : t.shift.indent = t.indent := rfl
  obtain ⟨hsame, hrest⟩ := Cursor.plainScalar_shift (!t.inBlock) t.indent h hpeek hrun
  rw [inBlock_shift, cursor_shift, hindent, hsame]
  generalize t.cursor.plainScalar (!t.inBlock) t.indent = read at hrest
  refine .ok ⟨?_, hrest.shorter h, ?_⟩
  · rw [emit_shift]
    rfl
  · have hweight := weight_emit (.scalar read.1 true) t.mark t
    change (t.emit (.scalar read.1 true) t.mark).weight ≤ _
    omega

/-! ## One step -/

/-- A step that reads a token, without and with a separator line in front of the text: it is the
last one, or less text is left. -/
abbrev StepsAlike (n w : Nat) (x y : Except Fault Lexing) : Prop :=
  Alike (fun t u => u = t.shift ∧ (t.done = true ∨ t.cursor.Fit n ∧ t.weight ≤ w)) x y

theorem lexByCharacter_shift (h : s.cursor.Fit (n + 1)) :
    StepsAlike n (s.weight + 4) s.lexByCharacter s.shift.lexByCharacter := by
  have moves {k : Nat} {x y : Except Fault Lexing} (hk : k ≤ 4)
      (h : MovesAlike n (s.weight + k) x y) : StepsAlike n (s.weight + 4) x y :=
    Alike.mono h fun _ _ ⟨hu, hfit, hweight⟩ =>
      ⟨hu, Or.inr ⟨hfit, Nat.le_trans hweight (Nat.add_le_add_left hk _)⟩⟩
  have hmapping : s.shift.atMappingIndicator = s.atMappingIndicator := rfl
  have hplain : s.shift.atPlain = s.atPlain := rfl
  have hmarker (x : Char) : s.shift.cursor.atMarker x = s.cursor.atMarker x := rfl
  have hcolumn : s.shift.cursor.column = s.cursor.column := rfl
  have hpeek : s.shift.cursor.peek = s.cursor.peek := rfl
  have hsecond : s.shift.cursor.peekAt 1 = s.cursor.peekAt 1 := rfl
  unfold lexByCharacter
  simp only [hmapping, hplain, hmarker, hcolumn, hpeek, hsecond, inBlock_shift]
  refine .ite (fun _ => ?_) fun hend => ?_
  · exact Alike.mono (lexStreamEnd_shift s) fun _ _ ⟨hu, hdone⟩ => ⟨hu, Or.inl hdone⟩
  have hend : s.cursor.peek ≠ endChar := by simpa using hend
  refine .ite (fun _ => moves (by decide) (lexDirective_shift h hend)) fun _ => ?_
  refine .ite (fun _ => moves (by decide) (lexMarker_shift h hend _)) fun _ => ?_
  refine .ite (fun _ => moves (by decide) (lexMarker_shift h hend _)) fun _ => ?_
  refine .ite (fun _ => moves (by decide) (lexFlowStart_shift h hend _)) fun _ => ?_
  refine .ite (fun _ => moves (by decide) (lexFlowStart_shift h hend _)) fun _ => ?_
  refine .ite (fun _ => moves (by decide) (lexFlowEnd_shift h hend _)) fun _ => ?_
  refine .ite (fun _ => moves (by decide) (lexFlowEnd_shift h hend _)) fun _ => ?_
  refine .ite (fun _ => moves (by decide) (lexComma_shift h hend)) fun _ => ?_
  refine .ite (fun _ => moves (by decide) (lexDash_shift h hend)) fun _ => ?_
  refine .ite (fun _ => moves (by decide) (lexQuestionMark_shift h hend)) fun _ => ?_
  refine .ite (fun _ => moves (by decide) (lexColon_shift h hend)) fun _ => ?_
  refine .ite (fun _ => moves (by decide) (lexReference_shift h hend)) fun _ => ?_
  refine .ite (fun _ => moves (by decide) (lexAnchor_shift h hend)) fun _ => ?_
  refine .ite (fun htag => ?_) fun _ => ?_
  · exact moves (by decide) (lexWord_shift (Cursor.tag_shift h (eq_of_beq htag)))
  refine .ite (fun _ => moves (by decide) (lexBlockScalar_shift h hend _)) fun _ => ?_
  refine .ite (fun _ => moves (by decide) (lexBlockScalar_shift h hend _)) fun _ => ?_
  refine .ite (fun _ => moves (by decide) (lexQuoted_shift h hend)) fun _ => ?_
  exact .ite (fun hstart => moves (by decide) (lexPlain_shift h hstart)) fun _ => .marked

theorem skipByteOrderMark_eq_self (h : s.mark.index = 0 → s.cursor.peek ≠ '\uFEFF') :
    s.skipByteOrderMark = s := by
  unfold skipByteOrderMark
  refine if_neg fun hmark => ?_
  simp only [Bool.and_eq_true, beq_iff_eq] at hmark
  exact h hmark.1 hmark.2

/-- The separation in front of a token does not depend on what is before it, nor on its bounds. -/
theorem skipSeparation_shift {f g : Nat} (hf : s.cursor.Fit f) (hg : s.cursor.Fit g) :
    skipSeparation g s.shift = (skipSeparation f s).shift ∧
      (skipSeparation f s).weight = s.weight ∧
      ∀ n, s.cursor.Fit n → (skipSeparation f s).cursor.Fit n := by
  induction f generalizing s g with
  | zero => exact hf.absurd_zero
  | succ f ih =>
    cases g with
    | zero => exact hg.absurd_zero
    | succ g =>
      have hcomment {n : Nat} (hn : s.cursor.Fit n) : s.cursor.skipSpaces.skipComment.Fit n :=
        hn.skipSpaces.skipComment
      unfold skipSeparation
      simp only [cursor_shift, Cursor.skipSpaces_shift, Cursor.skipComment_shift,
        Cursor.lineBreak_shift]
      cases hbreak : s.cursor.skipSpaces.skipComment.lineBreak with
      | mk b rest =>
        cases b with
        | none => exact ⟨rfl, rfl, fun n hn => hcomment hn⟩
        | some b =>
          have hrest {n : Nat} (hn : s.cursor.Fit (n + 1)) : rest.Fit n :=
            (hcomment hn).lineBreak_lt hbreak
          obtain ⟨hsame, hweight, hfit⟩ :=
            ih (s := { s with cursor := rest, keyAllowed := s.keyAllowed || s.inBlock })
              (hrest hf) (hrest hg)
          refine ⟨hsame, hweight, fun n hn => ?_⟩
          cases n with
          | zero => exact hn.absurd_zero
          | succ n => exact (hfit n (hrest hn)).mono (Nat.le_succ n)

theorem lexNext_shift (h : s.cursor.Fit (n + 1)) :
    StepsAlike n (s.weight + 4) s.lexNext s.shift.lexNext := by
  have hmark : s.shift.skipByteOrderMark = s.shift :=
    skipByteOrderMark_eq_self fun hindex => absurd hindex (Nat.succ_ne_zero _)
  have hbound : s.cursor.Fit (s.cursor.bound + 4) := h.toBound.mono (Nat.le_add_right _ _)
  obtain ⟨hsame, hweight, hfit⟩ := skipSeparation_shift h.toBound hbound
  unfold lexNext
  rw [skipByteOrderMark_eq_self h.unmarked, hmark]
  dsimp only
  rw [cursor_shift, Cursor.bound_shift, hsame]
  refine StaysAlike.bind (dropStale_shift _) fun t ht hw => ?_
  obtain ⟨hclose, hclosed⟩ := closeBlocks_shift t.column t
  have hcolumn : t.shift.column = t.column := rfl
  rw [hcolumn, hclose]
  have hcursor : (t.closeBlocks t.column).cursor.Fit (n + 1) := by
    rw [closeBlocks_cursor, ht]
    exact hfit _ h
  refine Alike.mono (lexByCharacter_shift hcursor) ?_
  rintro u _ ⟨rfl, hu⟩
  refine ⟨rfl, hu.imp_right fun ⟨hrest, hlast⟩ => ⟨hrest, ?_⟩⟩
  omega

theorem isPending_shift (s : Lexing) : s.shift.isPending = s.isPending := by
  have htoken (k : KeyCandidate) : (k.token + 1 == s.released + 1) = (k.token == s.released) := by
    simp
  simp only [isPending, shift, List.any_map, Function.comp_def, KeyCandidate.shift, htoken]

end Lexing

end Columnar.Yaml
