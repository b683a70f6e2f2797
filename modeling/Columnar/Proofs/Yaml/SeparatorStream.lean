import Columnar.Proofs.Yaml.Marks

/-!
# Documents behind a separator line

Main statement: with a separator line in front of a text that starts with three hyphens, the same
documents are read, but for a null document where the text starts with a separator of its own, and
reading ends in the same way. Behind the marker of the line the tokens are those of the text, so
that the first document is read alike; from then on matching readings go on alike, and since each
document takes a token, the bounds on their number do not matter.
-/

namespace Columnar.Yaml

namespace Read

variable {α β : Type} {inside : Prop} {n : Nat} {S : α × Reading → β × Reading → Prop}
  {m : Read α} {k : Read β}

theorem directives_agree (versionSeen : Bool) (handles : List (String × String)) (fuel : Nat) :
    Agree inside n Eq (directives versionSeen handles fuel)
      (directives versionSeen handles fuel) := by
  induction fuel generalizing versionSeen handles with
  | zero => exact .pure rfl
  | succ fuel ih =>
    unfold directives
    refine .bind peek_agree fun t u h => ?_
    rw [h]
    split
    · refine .bind advance_agree fun _ _ _ => ?_
      split
      · exact .ite .thrown (.ite .thrown (ih ..))
      · exact .ite .thrown (ih ..)
      · exact ih ..
    · exact .pure rfl

theorem depthBound_agree : Agree inside n Eq depthBound depthBound := by
  refine .bind .get fun s t h => ?_
  rw [h.stream.length]
  exact .pure rfl

theorem skipDocumentEnds_agree :
    Agree inside n (fun _ _ => True) skipDocumentEnds skipDocumentEnds := by
  refine .modify fun s t h => { h with stream := ⟨?_, h.stream.fault⟩, left := ?_ }
  · have hlexemes := congrArg (List.dropWhile (· == .documentEnd)) h.stream.lexemes
    rwa [List.dropWhile_map, List.dropWhile_map] at hlexemes
  · exact Nat.le_trans (List.dropWhile_suffix _).length_le h.left

theorem openDocument_ends (handles : List (String × String)) (h : EndsAlike True n S m k) :
    EndsAlike inside n S (do openDocument handles; m) (do openDocument handles; k) :=
  ⟨fun _ _ hst => h.ends _ _ {
    stream := hst.stream
    left := hst.left
    handles := fun _ => rfl
    anchors := fun _ => rfl
    graph := fun _ => rfl }⟩

theorem peek_yields (s : Reading) :
    Yields (fun p => p.1.lexeme ≠ .streamEnd → p.2.stream.tokens ≠ []) (peek s) := by
  unfold peek
  split
  · rename_i hs
    exact .ok fun _ hnil => by rw [hs] at hnil; cases hnil
  · exact .error
  · exact .ok fun hend => absurd rfl hend

/-- Behind the start of a document fewer tokens are left. -/
theorem documentStart_ends (h : ∀ l < n, EndsAlike True l S m k) :
    EndsAlike True n S
      (do
        let u ← peek
        if u.lexeme != .documentStart then
          throw (.plain (.expectedDocumentStart u.lexeme.name) u.mark)
        advance
        m)
      (do
        let u ← peek
        if u.lexeme != .documentStart then
          throw (.plain (.expectedDocumentStart u.lexeme.name) u.mark)
        advance
        k) := by
  refine ⟨fun s t hst => Alike.bind ((peek_agree.ends s t hst).and (peek_yields s)) ?_⟩
  rintro ⟨u, s⟩ ⟨v, t⟩ ⟨⟨huv, hst⟩, htokens⟩
  obtain ⟨lexeme, mark⟩ := u
  obtain ⟨_, mark'⟩ := v
  cases huv
  by_cases hstart : lexeme = .documentStart
  · subst hstart
    have hlength := List.length_pos_iff.mpr (htokens Lexeme.noConfusion)
    have hleft : (s.stream.tokens.drop 1).length ≤ n - 1 := by
      rw [List.length_drop]
      exact Nat.sub_le_sub_right hst.left 1
    refine (h (n - 1) (Nat.sub_lt (Nat.lt_of_lt_of_le hlength hst.left) Nat.one_pos)).ends _ _ {
      stream := hst.stream.drop 1
      left := hleft
      handles := hst.handles
      anchors := hst.anchors
      graph := hst.graph }
  · have hne : (lexeme != .documentStart) = true := bne_iff_ne.mpr hstart
    dsimp only
    rw [if_pos hne, if_pos hne]
    exact .fault rfl

/-- Two readers end at the end of the stream, or with one root and in matching readings with fewer
than `n` tokens left. -/
inductive SameDocument (n : Nat) : Option Root × Reading → Option Root × Reading → Prop
  | none {s t : Reading} : SameDocument n (none, s) (none, t)
  | some {l id : Nat} {began began' : Mark} {s t : Reading} : l < n → Reading.Matches True l s t →
      SameDocument n (some ⟨began, id⟩, s) (some ⟨began', id⟩, t)

theorem root_ends {l : Nat} (hl : l < n) {x y : Read Nat} (h : Agree True l Eq x y)
    (began began' : Mark) :
    EndsAlike True l (SameDocument n) (do return some ⟨began, ← x⟩)
      (do return some ⟨began', ← y⟩) := by
  refine .bind h ?_
  rintro id _ rfl
  exact ⟨fun s t hst => .ok (.some hl hst)⟩

theorem rootNode_ends {l : Nat} (hl : l < n) (began began' : Mark) :
    EndsAlike True l (SameDocument n)
      (do return some ⟨began, ← node .block (← depthBound)⟩)
      (do return some ⟨began', ← node .block (← depthBound)⟩) := by
  refine .bind depthBound_agree ?_
  rintro fuel _ rfl
  exact root_ends hl ((nodesAgree fuel).node .block) began began'

theorem explicitDocument?_ends :
    EndsAlike False n (SameDocument n) explicitDocument? explicitDocument? := by
  refine .bind skipDocumentEnds_agree fun _ _ _ => .bind peek_agree fun t u h => ?_
  rw [h]
  refine .ite ⟨fun s t hst => .ok .none⟩ (.bind depthBound_agree ?_)
  rintro fuel _ rfl
  refine .bind (directives_agree ..) ?_
  rintro handles _ rfl
  refine openDocument_ends handles (documentStart_ends fun l hl => ?_)
  refine .bind peek_agree fun v w hvw => ?_
  rw [hvw]
  exact .ite (root_ends hl (emptyNode_agree _ _) t.mark u.mark) (rootNode_ends hl t.mark u.mark)

/-- The marker that ends a document, if there is one. -/
def endDocument (root : Option Root) : Read (Option Root) := do
  if root.isSome then
    let u ← peek
    if u.lexeme == .documentEnd then advance
  return root

theorem endDocument_alike {p q : Option Root × Reading} (h : SameDocument n p q) :
    Alike (SameDocument n) (endDocument p.1 p.2) (endDocument q.1 q.2) := by
  cases h with
  | none => exact .ok .none
  | some hl hst =>
    rename_i l id began began' s t
    have hdone : EndsAlike True l (SameDocument n) (pure (some ⟨began, id⟩))
        (pure (some ⟨began', id⟩)) := root_ends hl (.pure rfl) began began'
    have hend : EndsAlike True l (SameDocument n) (endDocument (some ⟨began, id⟩))
        (endDocument (some ⟨began', id⟩)) := by
      refine .bind peek_agree fun u v h => ?_
      rw [h]
      exact .ite (.bind advance_agree fun _ _ _ => hdone) hdone
    exact hend.ends s t hst

theorem document?_false_ends :
    EndsAlike False n (SameDocument n) (document? false) (document? false) := by
  refine .bind peek_agree fun t u h => ⟨fun s t hst => ?_⟩
  exact .bind (explicitDocument?_ends.ends s t hst) fun p q hpq => endDocument_alike hpq

/-! ## The first document -/

theorem peek_cases (x : TokenStream) :
    (∃ f, ∀ s : Reading, s.stream = x → peek s = .error f) ∨
      ∃ t, (x.Starts → t.lexeme ≠ .documentEnd) ∧
        ∀ s : Reading, s.stream = x → peek s = .ok (t, s) := by
  obtain ⟨tokens, fault⟩ := x
  cases tokens with
  | cons t tokens =>
    refine Or.inr ⟨t, fun h => h t rfl, ?_⟩
    rintro ⟨_, handles, anchors, graph⟩ rfl
    rfl
  | nil =>
    cases fault with
    | some f =>
      refine Or.inl ⟨f, ?_⟩
      rintro ⟨_, handles, anchors, graph⟩ rfl
      rfl
    | none =>
      refine Or.inr ⟨⟨.streamEnd, ⟨0, 0, 0⟩⟩, fun _ => Lexeme.noConfusion, ?_⟩
      rintro ⟨_, handles, anchors, graph⟩ rfl
      rfl

/-- A reading with a marker in front of its tokens. -/
def behind (mark : Mark) (s : Reading) : Reading :=
  { s with stream := { s.stream with tokens := ⟨.documentStart, mark⟩ :: s.stream.tokens } }

/-- A reading at the start of a document without directives. -/
def opened (s : Reading) : Reading :=
  { s with handles := defaultHandles, anchors := [], graph := .empty }

/-- The rest of a document from its root on. -/
def rootDocument (mark : Mark) (s : Reading) : Except Fault (Option Root × Reading) :=
  (do return some ⟨mark, ← node .block (← depthBound)⟩ : Read (Option Root)) (opened s) >>=
    fun p => endDocument p.1 p.2

variable {s : Reading} {t : Token}

theorem document?_of_error {f : Fault} (first : Bool) (h : peek s = .error f) :
    document? first s = .error f := by
  change (peek s >>= fun p => _) = _
  rw [h]
  rfl

/-- Where no document does without its marker, it does not matter whether one may. -/
theorem document?_of_isBoundary (hpeek : peek s = .ok (t, s)) (h : isBoundary t.lexeme = true)
    (hend : t.lexeme ≠ .documentEnd) : document? true s = document? false s := by
  obtain ⟨lexeme, mark⟩ := t
  change (peek s >>= fun p => _) = (peek s >>= fun p => _)
  rw [hpeek]
  cases lexeme with
  | directive | documentStart | streamEnd => rfl
  | documentEnd => exact absurd rfl hend
  | _ => cases h

theorem document?_of_not_isBoundary (hpeek : peek s = .ok (t, s))
    (h : isBoundary t.lexeme = false) : document? true s = rootDocument t.mark s := by
  obtain ⟨lexeme, mark⟩ := t
  have hdocument : document? true s =
      (do endDocument (some ⟨mark, ← node .block (← depthBound)⟩) : Read (Option Root))
        (opened s) := by
    change (peek s >>= fun p => _) = _
    rw [hpeek]
    cases lexeme with
    | directive | documentStart | documentEnd | streamEnd => cases h
    | _ => rfl
  have hassoc : ((do return some ⟨mark, ← node .block (← depthBound)⟩) >>= endDocument) =
      (do endDocument (some ⟨mark, ← node .block (← depthBound)⟩) : Read (Option Root)) := by
    simp only [bind_assoc, pure_bind]
  rw [hdocument, ← hassoc]
  rfl

theorem document?_behind (mark : Mark) (s : Reading) :
    document? true (behind mark s) =
      ((do
        let v ← peek
        let id ← if isBoundary v.lexeme then emptyNode v.mark else node .block (← depthBound)
        return some ⟨mark, id⟩ : Read (Option Root)) (opened s) >>=
          fun p => endDocument p.1 p.2) := rfl

theorem document?_behind_of_error {f : Fault} (mark : Mark) (h : peek (opened s) = .error f) :
    document? true (behind mark s) = .error f := by
  rw [document?_behind]
  change ((peek (opened s) >>= fun p => _) >>= _) = _
  rw [h]
  rfl

theorem document?_behind_of_not_isBoundary (mark : Mark)
    (hpeek : peek (opened s) = .ok (t, opened s)) (h : isBoundary t.lexeme = false) :
    document? true (behind mark s) = rootDocument mark s := by
  rw [document?_behind]
  change ((peek (opened s) >>= fun p => _) >>= _) = _
  rw [hpeek]
  change ((if isBoundary t.lexeme then _ else _ : Read (Option Root)) (opened s) >>= _) = _
  rw [h]
  rfl

/-- A marker in front of the start of a document is a null document of its own. -/
theorem document?_behind_of_isBoundary (mark : Mark)
    (hpeek : ∀ u : Reading, u.stream = s.stream → peek u = .ok (t, u))
    (h : isBoundary t.lexeme = true) (hend : t.lexeme ≠ .documentEnd) :
    document? true (behind mark s) =
      .ok (some ⟨mark, 0⟩, { opened s with graph := ⟨#[.scalar "" true t.mark]⟩ }) := by
  rw [document?_behind]
  change ((peek (opened s) >>= fun p => _) >>= _) = _
  rw [hpeek (opened s) rfl]
  change ((if isBoundary t.lexeme then _ else _ : Read (Option Root)) (opened s) >>= _) = _
  rw [h]
  change (peek { opened s with graph := ⟨#[.scalar "" true t.mark]⟩ } >>= fun p => _) = _
  rw [hpeek { opened s with graph := ⟨#[.scalar "" true t.mark]⟩ } rfl]
  change (if t.lexeme == .documentEnd then _ else _ : Read (Option Root)) _ = _
  rw [if_neg (by simpa using hend)]
  rfl

end Read

namespace Reading

theorem trees_succ {first first' : Bool} {n f g : Nat} {s t : Reading}
    (h : Alike (Read.SameDocument n) (Read.document? first s) (Read.document? first' t))
    (hmore : ∀ l s t, l < n → Matches False l s t → Alike Eq (s.trees false f) (t.trees false g)) :
    Alike Eq (s.trees first (f + 1)) (t.trees first' (g + 1)) := by
  refine .bind h ?_
  rintro _ _ (_ | ⟨hl, hst⟩)
  · exact .ok rfl
  · refine .bind ((hst.graph trivial).unfold _) ?_
    rintro tree _ rfl
    have hbehind : Matches False _ _ _ :=
      ⟨hst.stream, hst.left, False.elim, False.elim, False.elim⟩
    refine .bind (hmore _ _ _ hl hbehind) ?_
    rintro trees _ rfl
    exact .ok rfl

/-- The documents of matching readings; the bounds on their number do not matter, as each takes a
token. -/
theorem trees_alike {n f g : Nat} {s t : Reading} (hst : s.Matches False n t) (hf : n < f)
    (hg : n < g) : Alike Eq (s.trees false f) (t.trees false g) := by
  induction f generalizing n g s t with
  | zero => exact absurd hf (Nat.not_lt_zero n)
  | succ f ih =>
    cases g with
    | zero => exact absurd hg (Nat.not_lt_zero n)
    | succ g =>
      exact trees_succ (Read.document?_false_ends.ends s t hst) fun l s t hl hst =>
        ih hst (Nat.lt_of_lt_of_le hl (Nat.le_of_lt_succ hf))
          (Nat.lt_of_lt_of_le hl (Nat.le_of_lt_succ hg))

/-- The documents that are no nulls are the same. -/
def SameValues (ts us : List Tree) : Prop :=
  (ts.filter fun t => !t.isNull) = us.filter fun t => !t.isNull

theorem trees_of_error {first : Bool} {fuel : Nat} {s : Reading} {f : Fault}
    (h : Read.document? first s = .error f) : s.trees first (fuel + 1) = .error f := by
  rw [trees, h]
  rfl

section Behind

variable {n : Nat} {s t : Reading} {u v : Token}

/-- Where a document has a marker of its own, one more in front of it makes a null document. -/
theorem trees_behind_of_isBoundary (mark : Mark) (hst : s.Matches False n t)
    (hs : Read.peek s = .ok (u, s))
    (ht : ∀ r : Reading, r.stream = t.stream → Read.peek r = .ok (v, r))
    (huv : u.lexeme = v.lexeme) (hboundary : Read.isBoundary v.lexeme = true)
    (hend : v.lexeme ≠ .documentEnd) :
    Alike SameValues (s.trees true (n + 2)) ((Read.behind mark t).trees true (n + 3)) := by
  have hleft : s.trees true (n + 2) = s.trees false (n + 2) := by
    rw [trees, trees, Read.document?_of_isBoundary hs (huv ▸ hboundary) (huv ▸ hend)]
  have hright : (Read.behind mark t).trees true (n + 3) =
      (Reading.trees false (n + 2)
        { Read.opened t with graph := ⟨#[.scalar "" true v.mark]⟩ }).map (.null :: ·) := by
    rw [trees, Read.document?_behind_of_isBoundary mark ht hboundary hend]
    rfl
  rw [hleft, hright]
  have hmore : Alike Eq (s.trees false (n + 2)) (Reading.trees false (n + 2)
      { Read.opened t with graph := ⟨#[.scalar "" true v.mark]⟩ }) :=
    trees_alike ⟨hst.stream, hst.left, False.elim, False.elim, False.elim⟩
      (Nat.lt_add_of_pos_right Nat.two_pos) (Nat.lt_add_of_pos_right Nat.two_pos)
  generalize s.trees false (n + 2) = x at hmore ⊢
  generalize Reading.trees false (n + 2) _ = y at hmore ⊢
  cases hmore with
  | ok h => exact .ok (h ▸ rfl)
  | fault h => exact .fault h

/-- Where a document starts with its root, a marker in front of it changes nothing. -/
theorem trees_behind_of_not_isBoundary (mark : Mark) (hst : s.Matches False n t)
    (hs : Read.peek s = .ok (u, s))
    (ht : ∀ r : Reading, r.stream = t.stream → Read.peek r = .ok (v, r))
    (huv : u.lexeme = v.lexeme) (hboundary : Read.isBoundary v.lexeme = false) :
    Alike Eq (s.trees true (n + 2)) ((Read.behind mark t).trees true (n + 3)) := by
  have hopened : Matches True n (Read.opened s) (Read.opened t) :=
    ⟨hst.stream, hst.left, fun _ => rfl, fun _ => rfl, fun _ => rfl⟩
  have hroot := (Read.rootNode_ends (Nat.lt_succ_self n) u.mark mark).ends _ _ hopened
  have hdocument : Alike (Read.SameDocument (n + 1)) (Read.document? true s)
      (Read.document? true (Read.behind mark t)) := by
    rw [Read.document?_of_not_isBoundary hs (huv ▸ hboundary),
      Read.document?_behind_of_not_isBoundary mark (ht _ rfl) hboundary]
    exact .bind hroot fun p q hpq => Read.endDocument_alike hpq
  exact trees_succ hdocument fun l s t hl hst => trees_alike hst (by omega) (by omega)

/-- A marker in front of the tokens of a reading changes nothing but for a null document. -/
theorem trees_behind (mark : Mark) (hst : s.Matches False n t) (hstarts : s.stream.Starts) :
    Alike SameValues (s.trees true (n + 2)) ((Read.behind mark t).trees true (n + 3)) := by
  have hpeek := Read.peek_agree.ends s t hst
  rcases Read.peek_cases s.stream with ⟨f, hs⟩ | ⟨u, hu, hs⟩ <;>
    rcases Read.peek_cases t.stream with ⟨g, ht⟩ | ⟨v, -, ht⟩ <;>
    rw [hs s rfl, ht t rfl] at hpeek
  · rw [trees_of_error (Read.document?_of_error true (hs s rfl)),
      trees_of_error (Read.document?_behind_of_error mark (ht _ rfl))]
    cases hpeek with
    | fault h => exact .fault h
  · cases hpeek
  · cases hpeek
  · have huv : u.lexeme = v.lexeme := by
      cases hpeek with
      | ok h => exact h.1
    cases hboundary : Read.isBoundary v.lexeme with
    | true =>
      exact trees_behind_of_isBoundary mark hst (hs s rfl) ht huv hboundary (huv ▸ hu hstarts)
    | false =>
      have hsame := trees_behind_of_not_isBoundary mark hst (hs s rfl) ht huv hboundary
      exact hsame.mono fun _ _ h => h ▸ rfl

end Behind

end Reading

theorem unacceptable?_eq_none_iff {source : List Char} :
    unacceptable? source = none ↔ ∀ c ∈ source, isAcceptable c = true := by
  simp [unacceptable?]

theorem refusal?_unacceptable? {source : List Char} {f : Fault}
    (h : unacceptable? source = some f) : f.refusal? = none := by
  obtain ⟨i, -, rfl⟩ := Option.map_eq_some_iff.mp h
  rfl

/-- A separator line in front of a text that starts with three hyphens changes nothing but for a
null document. -/
theorem readStream_separator (source : List Char) :
    Alike Reading.SameValues (readStream ('-' :: '-' :: '-' :: source))
      (readStream ('-' :: '-' :: '-' :: '\n' :: '-' :: '-' :: '-' :: source)) := by
  have hstarts := TokenStream.ofText_starts source
  have hhead : ('-' :: '-' :: '-' :: source).head? ≠ some '\uFEFF' := by simp
  obtain ⟨rest, hrest, hmarker⟩ := TokenStream.ofText_separator hhead
  generalize ('-' :: '-' :: '-' :: source : List Char) = text at hstarts hrest hmarker ⊢
  have hacceptable : unacceptable? ('-' :: '-' :: '-' :: '\n' :: text) = none ↔
      unacceptable? text = none := by
    have hmarker : ∀ c ∈ ['-', '-', '-', '\n'], isAcceptable c = true :=
      List.all_eq_true.mp (by decide)
    rw [unacceptable?_eq_none_iff, unacceptable?_eq_none_iff]
    exact List.forall_mem_append.trans (and_iff_right hmarker)
  unfold readStream
  cases htext : unacceptable? text with
  | some f =>
    cases hline : unacceptable? ('-' :: '-' :: '-' :: '\n' :: text) with
    | some g =>
      exact .fault ((refusal?_unacceptable? htext).trans (refusal?_unacceptable? hline).symm)
    | none =>
      rw [hacceptable.mp hline] at htext
      cases htext
  | none =>
    rw [hacceptable.mpr htext]
    have hstart : Reading.start ('-' :: '-' :: '-' :: '\n' :: text) =
        Read.behind ⟨0, 0, 0⟩ ⟨rest, [], [], .empty⟩ := by
      unfold Reading.start
      rw [hmarker]
      rfl
    have hst : (Reading.start text).Matches False (Reading.start text).stream.tokens.length
        ⟨rest, [], [], .empty⟩ :=
      ⟨hrest, Nat.le_refl _, False.elim, False.elim, False.elim⟩
    have hlength : (Reading.start text).stream.tokens.length = rest.tokens.length := hrest.length
    have hdocuments := Reading.trees_behind ⟨0, 0, 0⟩ hst hstarts
    dsimp only
    rw [hstart]
    rw [hlength] at hdocuments ⊢
    exact hdocuments

end Columnar.Yaml
