import Columnar.Proofs.Yaml.Cursor

/-!
# What the lexemes of a text may be refused for

Three constructs are refused while a text is cut into lexemes: escapes for code points beyond the
last character, those of them that pass 32 bits, and version numbers with too many digits. Main
statement: each reader goes on to a later part of the text, and what it refuses is written there.
-/

namespace Columnar.Yaml

/-- The text has an escape for the code point, with eight hexadecimal digits. -/
def Escapes (text : List Char) (code : Nat) : Prop :=
  ∃ ds, '\\' :: 'U' :: ds <:+: text ∧ ds.length = 8 ∧ (∀ d ∈ ds, isHex d = true) ∧
    hexNumber ds = code

/-- The construct of a refusal is written in the text. No lexeme is a collection. -/
def Refusal.WrittenIn (text : List Char) : Refusal → Prop
  | .collectionKey => False
  | .codePoint => ∃ code, Escapes text code ∧ 0x10FFFF < code ∧ code ≤ 0x7FFFFFFF
  | .wideCodePoint => ∃ code, Escapes text code ∧ 0x7FFFFFFF < code
  | .longNumber n =>
    ∃ ds, ds <:+: text ∧ ds.length = n ∧ (∀ d ∈ ds, d.isDigit = true) ∧ Cursor.maxVersionDigits < n

theorem Escapes.mono {text later : List Char} {code : Nat} (h : later <:+ text)
    (he : Escapes later code) : Escapes text code := by
  obtain ⟨ds, hds, hrest⟩ := he
  exact ⟨ds, hds.trans h.isInfix, hrest⟩

theorem Refusal.WrittenIn.mono {text later : List Char} {r : Refusal} (h : later <:+ text)
    (hr : r.WrittenIn later) : r.WrittenIn text := by
  cases r with
  | collectionKey => exact hr
  | codePoint =>
    obtain ⟨code, he, hcode⟩ := hr
    exact ⟨code, he.mono h, hcode⟩
  | wideCodePoint =>
    obtain ⟨code, he, hcode⟩ := hr
    exact ⟨code, he.mono h, hcode⟩
  | longNumber n =>
    obtain ⟨ds, hds, hrest⟩ := hr
    exact ⟨ds, hds.trans h.isInfix, hrest⟩

/-- Reading from the head of a text on goes on behind it, where `rest` says, and what is refused
is written in the text. -/
structure Reads {β : Type} (text : List Char) (rest : β → List Char) (x : Except Fault β) :
    Prop where
  suffix : ∀ b, x = .ok b → rest b <:+ text
  refusal : ∀ r, x = .error (.refused r) → r.WrittenIn text

namespace Reads

variable {β γ : Type} {text : List Char} {rest : β → List Char}

theorem ok {b : β} (h : rest b <:+ text) : Reads text rest (.ok b) where
  suffix := by
    rintro _ ⟨⟩
    exact h
  refusal := by
    rintro r ⟨⟩

theorem marked {context : Option Context} {began : Option Mark} {problem : Problem}
    {place : Mark} : Reads text rest (.error (.marked context began problem place)) where
  suffix := by
    rintro _ ⟨⟩
  refusal := by
    rintro r ⟨⟩

theorem mono {later : List Char} {x : Except Fault β} (h : later <:+ text)
    (hx : Reads later rest x) : Reads text rest x where
  suffix b hb := (hx.suffix b hb).trans h
  refusal r hr := (hx.refusal r hr).mono h

theorem bind {rest' : γ → List Char} {x : Except Fault β} {f : β → Except Fault γ}
    (hx : Reads text rest x) (hf : ∀ b, Reads (rest b) rest' (f b)) :
    Reads text rest' (x >>= f) := by
  cases x with
  | error fault =>
    refine ⟨?_, ?_⟩
    · rintro _ ⟨⟩
    · rintro r ⟨⟩
      exact hx.refusal r rfl
  | ok b => exact (hf b).mono (hx.suffix b rfl)

theorem map {rest' : γ → List Char} {x : Except Fault β} {f : β → γ}
    (hx : Reads text rest x) (hf : ∀ b, rest' (f b) = rest b) :
    Reads text rest' (x.map f) := by
  cases x with
  | error fault =>
    refine ⟨?_, ?_⟩
    · rintro _ ⟨⟩
    · rintro r ⟨⟩
      exact hx.refusal r rfl
  | ok b =>
    refine Reads.ok ?_
    rw [hf b]
    exact hx.suffix b rfl

theorem ite {p : Prop} [Decidable p] {x y : Except Fault β} (hx : Reads text rest x)
    (hy : Reads text rest y) : Reads text rest (if p then x else y) := by
  split
  · exact hx
  · exact hy

theorem expect {c : Cursor} {p : Char → Bool} {context : Context} {began : Mark}
    {wanted : Wanted} : Reads text (fun _ => text) (c.expect p context began wanted) := by
  unfold Cursor.expect
  split
  · exact ok (List.suffix_refl _)
  · exact marked

end Reads

/-- A reader of a lexeme reads from where it stands. -/
abbrev ReadsFrom {α : Type} (c : Cursor) (x : Except Fault (α × Cursor)) : Prop :=
  Reads c.rest (fun b => b.2.rest) x

namespace Cursor

theorem rest_of_peek {c : Cursor} {x : Char} (h : c.peek = x) (hx : x ≠ endChar) :
    c.rest = x :: c.next.rest := by
  unfold peek at h
  unfold next
  cases hrest : c.rest with
  | nil =>
    rw [hrest] at h
    exact absurd h.symm hx
  | cons y ys =>
    rw [hrest] at h
    simpa using h

/-! ## Words -/

theorem anchorName_reads (context : Context) (c : Cursor) : ReadsFrom c (c.anchorName context) := by
  have hword := (skipWhile_suffix isWord c.next).trans c.next_suffix
  unfold anchorName
  dsimp only [takeWhile]
  split
  · exact .marked
  · exact .mono hword (.bind .expect fun _ => .ok (List.suffix_refl _))

theorem tagHandle_reads (context : Context) (began : Mark) (c : Cursor) :
    ReadsFrom c (c.tagHandle context began) := by
  have hword := (skipWhile_suffix isWord c.next).trans c.next_suffix
  unfold tagHandle
  dsimp only [takeWhile]
  refine .bind .expect fun _ => ?_
  split
  · exact .ok c.next_suffix
  · exact .mono hword (.bind .expect fun _ => .ok (next_suffix _))

theorem uriBytes_reads (context : Context) (began : Mark) (fuel : Nat) (c : Cursor) :
    ReadsFrom c (uriBytes context began fuel c) := by
  induction fuel generalizing c with
  | zero => exact .ok (List.suffix_refl _)
  | succ fuel ih =>
    have hbyte := (skip_suffix 2 c.next).trans c.next_suffix
    unfold uriBytes
    split
    · exact .ok (List.suffix_refl _)
    · dsimp only
      split
      · exact .marked
      · exact .mono hbyte (.bind (ih _) fun _ => .ok (List.suffix_refl _))

theorem uriPieces_reads (context : Context) (began : Mark) (fuel : Nat) (c : Cursor) :
    ReadsFrom c (uriPieces context began fuel c) := by
  induction fuel generalizing c with
  | zero => exact .ok (List.suffix_refl _)
  | succ fuel ih =>
    unfold uriPieces
    split
    · refine .bind (uriBytes_reads context began c.bound c) ?_
      rintro ⟨bytes, rest⟩
      dsimp only
      split
      · exact .marked
      · exact .bind (ih rest) fun _ => .ok (List.suffix_refl _)
    split
    · exact .mono (skipWhile_suffix isUriChar c) (.bind (ih _) fun _ => .ok (List.suffix_refl _))
    · exact .ok (List.suffix_refl _)

theorem tagUri_reads (context missing : Context) (began : Mark) (c : Cursor) :
    ReadsFrom c (c.tagUri context missing began) := by
  unfold tagUri
  exact .bind .expect fun _ => .bind (uriPieces_reads ..) fun _ => .ok (List.suffix_refl _)

theorem tag_reads (c : Cursor) : ReadsFrom c c.tag := by
  have hend (lexeme : Lexeme) (d : Cursor) : ReadsFrom d (do
      d.expect (fun x => x == ' ' || isBreakOrEnd x) .tag c.mark .space
      return (lexeme, d)) := .bind .expect fun _ => .ok (List.suffix_refl _)
  have hsuffix (handle : String) (d : Cursor) : ReadsFrom d (do
      let r ← d.tagUri .tag .tagUri c.mark
      r.2.expect (fun x => x == ' ' || isBreakOrEnd x) .tag c.mark .space
      return (Lexeme.tag (some handle) r.1, r.2)) := .bind (tagUri_reads ..) fun _ => hend _ _
  unfold tag
  dsimp only
  split
  · refine .mono (skip_suffix 2 c) (.bind (tagUri_reads ..) ?_)
    rintro ⟨uri, d⟩
    exact .bind .expect fun _ => .mono d.next_suffix (hend _ _)
  split
  · exact .mono c.next_suffix (hend _ _)
  split
  · exact .bind (tagHandle_reads ..) fun b => hsuffix b.1 b.2
  · exact .mono c.next_suffix (hsuffix _ _)

/-! ## Directives -/

theorem versionNumber_reads (began : Mark) (c : Cursor) :
    ReadsFrom c (c.versionNumber began) := by
  unfold versionNumber
  dsimp only [takeWhile]
  refine .bind .expect fun _ => ?_
  split
  · rename_i hlong
    refine ⟨?_, ?_⟩
    · rintro _ ⟨⟩
    · rintro r ⟨⟩
      have hdigits := List.all_eq_true.mp (List.all_takeWhile (l := c.rest) (p := Char.isDigit))
      exact ⟨c.run Char.isDigit, (List.takeWhile_prefix _).isInfix, rfl, hdigits, hlong⟩
  · exact .ok (skipWhile_suffix _ c)

theorem directive_reads (c : Cursor) : ReadsFrom c c.directive := by
  have hend (d : Directive) (e : Cursor) : ReadsFrom e (do
      e.skipSpaces.skipComment.expect isBreakOrEnd .directive c.mark .lineEnd
      return (Lexeme.directive d, e.skipSpaces.skipComment.lineBreak.2)) := by
    have hcomment := (skipComment_suffix _).trans e.skipSpaces_suffix
    exact .bind .expect fun _ => .ok ((lineBreak_suffix _).trans hcomment)
  have hword := (skipWhile_suffix isWord c.next).trans c.next_suffix
  unfold directive
  dsimp only [takeWhile]
  split
  · exact .marked
  refine .mono hword (.bind .expect fun _ => ?_)
  generalize c.next.skipWhile isWord = d
  split
  · refine .mono (skipSpaces_suffix _) (.bind (versionNumber_reads ..) ?_)
    rintro ⟨major, d⟩
    refine .bind .expect fun _ => .mono d.next_suffix (.bind (versionNumber_reads ..) ?_)
    rintro ⟨minor, e⟩
    refine .bind .expect fun _ => ?_
    rw [pure_bind]
    exact hend _ _
  split
  · refine .mono (skipSpaces_suffix _) (.bind (tagHandle_reads ..) ?_)
    rintro ⟨handle, d⟩
    refine .bind .expect fun _ => .mono d.skipSpaces_suffix (.bind (tagUri_reads ..) ?_)
    rintro ⟨base, e⟩
    refine .bind .expect fun _ => ?_
    rw [pure_bind]
    exact hend _ _
  · rw [pure_bind]
    refine .mono (skipWhile_suffix (fun x => !isBreakOrEnd x) _) ?_
    exact hend .other (d.skipWhile fun x => !isBreakOrEnd x)

/-! ## Block scalars -/

theorem indentationIndicator_reads (began : Mark) (c : Cursor) :
    ReadsFrom c (c.indentationIndicator began) := by
  unfold indentationIndicator
  split
  · exact .marked
  split
  · exact .ok c.next_suffix
  · exact .ok (List.suffix_refl _)

theorem chompingIndicator_suffix (c : Cursor) : c.chompingIndicator.2.rest <:+ c.rest := by
  unfold chompingIndicator
  split
  · exact c.next_suffix
  split
  · exact c.next_suffix
  · exact List.suffix_refl _

theorem blockHeader_reads (began : Mark) (c : Cursor) : ReadsFrom c (c.blockHeader began) := by
  unfold blockHeader
  dsimp only
  refine .mono c.chompingIndicator_suffix (.bind (indentationIndicator_reads ..) ?_)
  rintro ⟨indentation, d⟩
  dsimp only
  split
  · exact .mono d.chompingIndicator_suffix (.bind .expect fun _ => .ok (List.suffix_refl _))
  · exact .bind .expect fun _ => .ok (List.suffix_refl _)

theorem blockScalar_reads (folded : Bool) (parent : Int) (c : Cursor) :
    ReadsFrom c (c.blockScalar folded parent) := by
  unfold blockScalar
  dsimp only
  refine .mono c.next_suffix (.bind (blockHeader_reads ..) ?_)
  rintro ⟨header, d⟩
  dsimp only
  have hline := (lineBreak_suffix d.skipSpaces.skipComment).trans
    ((skipComment_suffix _).trans d.skipSpaces_suffix)
  refine .bind .expect fun _ => .ok ((blockLines_suffix ..).trans (.trans ?_ hline))
  cases header.indentation with
  | none => exact leadingLines_suffix ..
  | some n => exact emptyLines_suffix ..

/-! ## Quoted scalars -/

theorem quotedBreaks_reads (began : Mark) (fuel : Nat) (c : Cursor) :
    ReadsFrom c (quotedBreaks began fuel c) := by
  induction fuel generalizing c with
  | zero => exact .ok (List.suffix_refl _)
  | succ fuel ih =>
    have hwhite := c.skipWhile_suffix isWhite
    unfold quotedBreaks
    split
    · exact .marked
    · dsimp only
      split
      · exact .ok hwhite
      · rename_i hbreak
        have hrest := (lineBreak_suffix_of_eq hbreak).trans hwhite
        exact .mono hrest (.bind (ih _) fun _ => .ok (List.suffix_refl _))

theorem quotedSpace_reads (began : Mark) (c : Cursor) : ReadsFrom c (c.quotedSpace began) := by
  have hwhite := c.skipWhile_suffix isWhite
  unfold quotedSpace
  dsimp only [takeWhile]
  split
  · exact .marked
  split
  · exact .ok hwhite
  · rename_i hbreak
    have hrest := (lineBreak_suffix_of_eq hbreak).trans hwhite
    exact .mono hrest (.bind (quotedBreaks_reads ..) fun _ => .ok (List.suffix_refl _))

theorem hexDigit_lt {d : Char} (h : isHex d = true) :
    (if d.isDigit then d.toNat - '0'.toNat else d.toLower.toNat - 'a'.toNat + 10) < 16 := by
  have hascii : ∀ n < 128, isHex (Char.ofNat n) = true →
      (if (Char.ofNat n).isDigit then (Char.ofNat n).toNat - '0'.toNat
        else (Char.ofNat n).toLower.toNat - 'a'.toNat + 10) < 16 := by decide
  have hsmall : d.toNat < 128 := by
    simp only [isHex, Char.isDigit, Bool.or_eq_true, Bool.and_eq_true, decide_eq_true_eq] at h
    rcases h with (⟨-, h⟩ | ⟨-, h⟩) | ⟨-, h⟩
    · have hle : d.toNat ≤ 57 := h
      omega
    · have hle : d.toNat ≤ 102 := h
      omega
    · have hle : d.toNat ≤ 70 := h
      omega
  have hd := hascii d.toNat hsmall
  rw [Char.ofNat_toNat] at hd
  exact hd h

/-- The value of hexadecimal digits is below the power of 16 with as many zeros. -/
theorem hexNumber_lt {ds : List Char} (h : ∀ d ∈ ds, isHex d = true) :
    hexNumber ds < Nat.pow 16 ds.length := by
  have hfold (n : Nat) : ds.foldl (fun n c => 16 * n + (if c.isDigit then c.toNat - '0'.toNat
      else c.toLower.toNat - 'a'.toNat + 10)) n < (n + 1) * Nat.pow 16 ds.length := by
    induction ds generalizing n with
    | nil => simp
    | cons d ds ih =>
      have hd := hexDigit_lt (h d List.mem_cons_self)
      have hds := ih (fun e he => h e (List.mem_cons_of_mem _ he)) (16 * n +
        (if d.isDigit then d.toNat - '0'.toNat else d.toLower.toNat - 'a'.toNat + 10))
      refine Nat.lt_of_lt_of_le hds ?_
      have hpow : Nat.pow 16 (ds.length + 1) = Nat.pow 16 ds.length * 16 := rfl
      rw [List.length_cons, hpow, Nat.mul_comm _ 16, ← Nat.mul_assoc]
      exact Nat.mul_le_mul_right _ (by omega)
  simpa [hexNumber] using hfold 0

/-- Digits read one by one are the head of the text. -/
theorem map_peekAt_prefix {c : Cursor} {count : Nat}
    (h : ∀ d ∈ (List.range count).map (fun n => c.peekAt n), isHex d = true) :
    (List.range count).map (fun n => c.peekAt n) <+: c.rest := by
  induction count with
  | zero => exact List.nil_prefix
  | succ count ih =>
    have hbefore := ih fun d hd => h d (by
      rw [List.range_succ, List.map_append]
      exact List.mem_append_left _ hd)
    have hlast : isHex (c.peekAt count) = true := h _ (List.mem_map_of_mem (by simp))
    have hlt : count < c.rest.length := by
      rcases Nat.lt_or_ge count c.rest.length with hlt | hge
      · exact hlt
      · rw [peekAt, List.getD_eq_getElem?_getD, List.getElem?_eq_none hge] at hlast
        exact absurd hlast (by decide)
    have htake : (List.range count).map (fun n => c.peekAt n) = c.rest.take count := by
      simpa using List.prefix_iff_eq_take.mp hbefore
    have hpeek : c.peekAt count = c.rest[count] := by
      rw [peekAt, List.getD_eq_getElem?_getD, List.getElem?_eq_getElem hlt, Option.getD_some]
    rw [List.range_succ, List.map_append, htake, List.map_singleton, hpeek,
      List.take_append_getElem hlt]
    exact List.take_prefix _ _

theorem charOfCode_refusal {code : Nat} {r : Refusal} (h : charOfCode code = .error (.refused r)) :
    (r = .codePoint ∧ 0x10FFFF < code ∧ code ≤ 0x7FFFFFFF) ∨
      (r = .wideCodePoint ∧ 0x7FFFFFFF < code) := by
  unfold charOfCode at h
  split at h
  · cases h
  split at h
  · cases h
  split at h
  · cases h
    exact Or.inl ⟨rfl, by omega, ‹_›⟩
  · cases h
    exact Or.inr ⟨rfl, by omega⟩

theorem codeLength?_cases {x : Char} {count : Nat} (h : codeLength? x = some count) :
    count ≤ 4 ∨ (x = 'U' ∧ count = 8) := by
  unfold codeLength? at h
  split at h
  · cases h
    omega
  split at h
  · cases h
    omega
  split at h
  · cases h
    exact Or.inr ⟨eq_of_beq ‹_›, rfl⟩
  · cases h

/-- Only an escape with eight digits passes the last character. -/
theorem writtenIn_of_charOfCode {c : Cursor} {ds : List Char} {r : Refusal}
    (hback : c.peek = '\\') (hlength : codeLength? c.next.peek = some ds.length)
    (hds : ds <+: c.next.next.rest) (hhex : ∀ d ∈ ds, isHex d = true)
    (hr : charOfCode (hexNumber ds) = .error (.refused r)) : r.WrittenIn c.rest := by
  have hvalue := charOfCode_refusal hr
  have hlt : hexNumber ds < Nat.pow 16 ds.length := hexNumber_lt hhex
  rcases codeLength?_cases hlength with hshort | ⟨hletter, hcount⟩
  · have hpow : Nat.pow 16 ds.length ≤ 65536 := Nat.pow_le_pow_right (by decide) hshort
    omega
  · have hescapes : Escapes c.rest (hexNumber ds) := by
      refine ⟨ds, ?_, hcount, hhex, rfl⟩
      rw [rest_of_peek hback (by decide), rest_of_peek hletter (by decide)]
      exact ((List.prefix_cons_inj _).mpr ((List.prefix_cons_inj _).mpr hds)).isInfix
    rcases hvalue with ⟨rfl, hcode⟩ | ⟨rfl, hcode⟩
    · exact ⟨_, hescapes, hcode⟩
    · exact ⟨_, hescapes, hcode⟩

theorem escape_reads (began : Mark) {c : Cursor} (h : c.peek = '\\') :
    ReadsFrom c (c.escape began) := by
  have hnext := c.next_suffix
  have hcode := (c.next.next_suffix).trans hnext
  unfold escape
  dsimp only
  split
  · exact .ok hcode
  · rename_i count _ hlength
    split
    · exact .marked
    · rename_i hfind
      have hhex : ∀ d ∈ (List.range count).map (fun n => c.next.next.peekAt n),
          isHex d = true := by
        intro d hd
        simpa using List.find?_eq_none.mp hfind d hd
      have hds := map_peekAt_prefix hhex
      have hcount : ((List.range count).map fun n => c.next.next.peekAt n).length = count := by
        rw [List.length_map, List.length_range]
      rw [← hcount] at hlength
      generalize (List.range count).map (fun n => c.next.next.peekAt n) = ds at *
      cases hchar : charOfCode (hexNumber ds) with
      | ok x => exact .ok ((skip_suffix count _).trans hcode)
      | error fault =>
        refine ⟨?_, ?_⟩
        · rintro _ ⟨⟩
        · rintro r ⟨⟩
          exact writtenIn_of_charOfCode h hlength hds hhex hchar
  · split
    · rename_i hbreak
      exact .mono ((lineBreak_suffix_of_eq hbreak).trans hnext) (quotedBreaks_reads ..)
    · exact .marked

theorem quotedPieces_reads (double : Bool) (began : Mark) (fuel : Nat) (c : Cursor) :
    ReadsFrom c (quotedPieces double began fuel c) := by
  induction fuel generalizing c with
  | zero => exact .ok (List.suffix_refl _)
  | succ fuel ih =>
    have hmore (piece : List Char) (d : Cursor) : ReadsFrom d (do
        let r ← quotedPieces double began fuel d
        return (piece ++ r.1, r.2)) := .bind (ih d) fun _ => .ok (List.suffix_refl _)
    unfold quotedPieces
    dsimp only
    generalize (if double then '"' else '\x27') = quote
    split
    · exact .mono (skip_suffix 2 c) (.bind (ih _) fun _ => .ok (List.suffix_refl _))
    split
    · exact .ok c.next_suffix
    split
    · exact .mono (skipWhile_suffix isOrdinary c) (hmore _ _)
    split
    · exact .bind (quotedSpace_reads ..) fun b => hmore b.1 b.2
    split
    · rename_i hescape
      have hpeek : c.peek = '\\' := by simp at hescape; exact hescape.2
      exact .bind (escape_reads began hpeek) fun b => hmore b.1 b.2
    · exact .mono c.next_suffix (hmore _ _)

theorem quotedScalar_reads (c : Cursor) : ReadsFrom c c.quotedScalar := by
  unfold quotedScalar
  exact .mono c.next_suffix (.bind (quotedPieces_reads ..) fun _ => .ok (List.suffix_refl _))

end Cursor

end Columnar.Yaml
