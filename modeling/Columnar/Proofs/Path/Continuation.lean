import Columnar.Proofs.Path.Address

/-!
# Continued paths

Writing more behind a path goes on where the path ends, as if a new path started at the node it
finds. A point or a bracket finishes what was read before it, and from there on the reader never
looks back: earlier components stay in front of whatever it puts down. This needs the path to end
where a component may start, since within quotes or behind a backslash a point is part of a key.
-/

namespace Columnar

/-- The same complaint about another text. -/
def PathError.about (text : String) : PathError → PathError
  | .noRoot _ => .noRoot text
  | .unclosedIndex _ => .unclosedIndex text
  | .badIndex raw _ => .badIndex raw text

namespace Path

/-- The text of a path ends where a component may start: the reader is left neither within quotes,
nor behind a backslash, nor inside brackets. -/
def EndsOpen (text : String) : Prop :=
  ∃ rest q, text.toList = '$' :: rest ∧ Progress.start.run rest = .ok q ∧ q.mode = .key false

namespace Progress

/-- The same progress with components in front that were finished before. -/
def after (done : List Component) (p : Progress) : Progress :=
  { p with components := done ++ p.components }

theorem finish_after (done : List Component) (p : Progress) :
    (p.after done).finish = done ++ p.finish := by
  show (if p.current.isEmpty then done ++ p.components else _) = _
  unfold finish
  split
  · rfl
  · exact List.append_assoc _ _ _

/-- No step looks at the components that were finished before. -/
theorem step_after (done : List Component) (p : Progress) (c : Char) :
    (p.after done).step c = (p.step c).map (after done) := by
  obtain ⟨mode, components, current⟩ := p
  cases mode with
  | escaped inQuotes => rfl
  | index raw =>
    show (if c = ']' then _ else _) = Except.map _ (if c = ']' then _ else _)
    by_cases hc : c = ']'
    · rw [if_pos hc, if_pos hc]
      cases index? raw with
      | none => rfl
      | some i =>
        show Except.ok (Progress.mk _ ((done ++ components) ++ [.index i]) []) = _
        rw [List.append_assoc]
        rfl
    · rw [if_neg hc, if_neg hc]
      rfl
  | key inQuotes =>
    show (if _ then _ else if _ then _ else if _ then _ else
      Except.ok (Progress.mk _ (finish (after done _)) [])) = _
    rw [finish_after]
    show _ = Except.map _ (if _ then _ else if _ then _ else if _ then _ else _)
    split
    · rfl
    split
    · rfl
    split <;> rfl

theorem run_after (done : List Component) (p : Progress) (cs : List Char) :
    (p.after done).run cs = (p.run cs).map (after done) := by
  induction cs generalizing p with
  | nil => rfl
  | cons c rest ih =>
    rw [run, run, step_after]
    cases p.step c with
    | error raw => rfl
    | ok q => exact ih q

/-- Where a component may start, a point or a bracket finishes what was read and starts anew. -/
theorem step_start {p : Progress} (hp : p.mode = .key false) {c : Char} (hc : c = '.' ∨ c = '[') :
    p.step c = (start.step c).map (after p.finish) := by
  obtain ⟨mode, components, current⟩ := p
  obtain rfl : mode = .key false := hp
  rcases hc with rfl | rfl <;>
  · show Except.ok (Progress.mk _ (finish _) []) = .ok ⟨_, finish _ ++ [], []⟩
    rw [List.append_nil]

/-- The path or the error that reading a text ends with. -/
def outcome (text : String) : Except (List Char) Progress → Except PathError Path
  | .error raw => .error (.badIndex (String.ofList raw) text)
  | .ok p =>
    match p.mode with
    | .index _ => .error (.unclosedIndex text)
    | _ => .ok ⟨text, p.finish⟩

theorem outcome_after (done : List Component) (text other : String)
    (r : Except (List Char) Progress) :
    outcome text (r.map (after done)) =
      ((outcome other r).mapError (·.about text)).map
        fun t => ⟨text, done ++ t.components⟩ := by
  cases r with
  | error raw => rfl
  | ok p =>
    obtain ⟨mode, components, current⟩ := p
    have hfinish := finish_after done ⟨mode, components, current⟩
    cases mode with
    | index raw => rfl
    | key inQuotes =>
      show Except.ok (Path.mk text (finish (after done _))) = _
      rw [hfinish]
      rfl
    | escaped inQuotes =>
      show Except.ok (Path.mk text (finish (after done _))) = _
      rw [hfinish]
      rfl

end Progress

theorem compile_of_root {text : String} {rest : List Char} (h : text.toList = '$' :: rest) :
    compile text = Progress.outcome text (Progress.start.run rest) := by
  unfold compile
  rw [h]
  rfl

/-- A continued path has the components of both parts, or the complaint about the second part. -/
theorem compile_append {text suffix : String} {p : Path} (hp : compile text = .ok p)
    (hopen : EndsOpen text)
    (hsuffix : suffix.toList.head? = some '.' ∨ suffix.toList.head? = some '[') :
    compile (text ++ suffix) =
      ((compile ("$" ++ suffix)).mapError (·.about (text ++ suffix))).map
        fun t => ⟨text ++ suffix, p.components ++ t.components⟩ := by
  obtain ⟨rest, q, htext, hrun, hmode⟩ := hopen
  obtain ⟨c, more, hchars, hc⟩ :
      ∃ c more, suffix.toList = c :: more ∧ (c = '.' ∨ c = '[') := by
    cases hchars : suffix.toList with
    | nil => simp [hchars] at hsuffix
    | cons c more => exact ⟨c, more, rfl, by simpa [hchars] using hsuffix⟩
  have hdone : q.finish = p.components := by
    rw [compile_of_root htext, hrun, Progress.outcome, hmode] at hp
    cases hp
    rfl
  have hjoined : (text ++ suffix).toList = '$' :: (rest ++ suffix.toList) := by
    rw [String.toList_append, htext, List.cons_append]
  have hanew : ("$" ++ suffix).toList = '$' :: suffix.toList := by
    rw [String.toList_append]
    rfl
  have hreading : Progress.start.run (rest ++ suffix.toList) =
      (Progress.start.run suffix.toList).map (Progress.after p.components) := by
    rw [Progress.run_append hrun, hchars, Progress.run, Progress.run,
      Progress.step_start hmode hc, hdone]
    cases Progress.start.step c with
    | error raw => rfl
    | ok next => exact Progress.run_after _ _ _
  rw [compile_of_root hjoined, compile_of_root hanew, hreading,
    Progress.outcome_after _ _ ("$" ++ suffix)]

/-- Following one path after the other. -/
theorem follow_append {r p t : Path} (h : r.components = p.components ++ t.components)
    (root : Tree) : r.follow root = (p.follow root).bind t.follow := by
  unfold follow
  rw [h, List.foldlM_append]
  rfl

/-- **Paths compose.** Behind a path that ends where a component may start, a text that starts with
a point or a bracket continues it. The continued path compiles if and only if the continuation is a
path from a root of its own, and fails with the same complaint otherwise; its components are those
of the path followed by those of the continuation. In every document it finds what the continuation
finds below the node that the path finds, and nothing where the path finds nothing. -/
theorem continued_path_composes {text suffix : String} {p : Path} (hp : compile text = .ok p)
    (hopen : EndsOpen text)
    (hsuffix : suffix.toList.head? = some '.' ∨ suffix.toList.head? = some '[') :
    ((∃ r, compile (text ++ suffix) = .ok r) ↔ ∃ t, compile ("$" ++ suffix) = .ok t) ∧
    (∀ e, compile ("$" ++ suffix) = .error e →
      compile (text ++ suffix) = .error (e.about (text ++ suffix))) ∧
    (∀ t, compile ("$" ++ suffix) = .ok t →
      ∃ r, compile (text ++ suffix) = .ok r ∧ r.components = p.components ++ t.components ∧
        ∀ root, (∀ node, p.follow root = some node → r.follow root = t.follow node) ∧
          (p.follow root = none → r.follow root = none)) := by
  have hjoined := compile_append hp hopen hsuffix
  cases hcontinuation : compile ("$" ++ suffix) with
  | error e =>
    rw [hcontinuation] at hjoined
    refine ⟨⟨?_, ?_⟩, ?_, ?_⟩
    · intro h
      obtain ⟨r, hr⟩ := h
      rw [hr] at hjoined
      cases hjoined
    · intro h
      obtain ⟨t, ht⟩ := h
      cases ht
    · intro e' he
      cases he
      exact hjoined
    · intro t ht
      cases ht
  | ok t =>
    rw [hcontinuation] at hjoined
    refine ⟨⟨fun _ => ⟨t, rfl⟩, fun _ => ⟨_, hjoined⟩⟩, ?_, ?_⟩
    · intro e he
      cases he
    · intro t' ht
      cases ht
      refine ⟨_, hjoined, rfl, fun root => ?_⟩
      have hfollow := follow_append (r := ⟨text ++ suffix, p.components ++ t.components⟩)
        (p := p) (t := t) rfl root
      constructor
      · intro node hnode
        rw [hfollow, hnode]
        rfl
      · intro hnothing
        rw [hfollow, hnothing]
        rfl

/-- The first part ends in a key that is still being read, behind a quoted bracket and an escaped
point; the second part goes on below what the first one finds. -/
theorem quoted_path_is_continued :
    compile "$.'a['\\.b[0]c" = .ok ⟨"$.'a['\\.b[0]c", [.key "a[.b", .index 0, .key "c"]⟩ ∧
    EndsOpen "$.'a['\\.b[0]c" ∧ "[1].d".toList.head? = some '[' ∧
    ∃ r, compile ("$.'a['\\.b[0]c" ++ "[1].d") = .ok r ∧
      r.components = [.key "a[.b", .index 0, .key "c", .index 1, .key "d"] ∧
      r.follow (.map [("a[.b", .sequence [.map [("c",
        .sequence [.null, .map [("d", .scalar "1")]])]])]) = some (.scalar "1") := by
  have hp : compile "$.'a['\\.b[0]c" =
      .ok ⟨"$.'a['\\.b[0]c", [.key "a[.b", .index 0, .key "c"]⟩ := by decide
  have hopen : EndsOpen "$.'a['\\.b[0]c" :=
    ⟨_, ⟨.key false, [.key "a[.b", .index 0], ['c']⟩, rfl, by decide, rfl⟩
  have hcontinuation : compile ("$" ++ "[1].d") = .ok ⟨"$[1].d", [.index 1, .key "d"]⟩ := by decide
  obtain ⟨r, hr, hcomponents, hfollow⟩ :=
    (continued_path_composes hp hopen (Or.inr (by decide))).2.2 _ hcontinuation
  refine ⟨hp, hopen, by decide, r, hr, hcomponents, ?_⟩
  exact (hfollow _).1 (.sequence [.null, .map [("d", .scalar "1")]]) rfl

/-- Within quotes a point does not continue a path. -/
example : compile ("$.'a" ++ ".b") = .ok ⟨"$.'a.b", [.key "a.b"]⟩ := by decide

end Path

end Columnar
