import Columnar.Proofs.Yaml.Lexeme

/-!
# Readers behind a separator line

What a reader of lexemes makes of a text does not depend on what stands before it, as long as the
text starts a line: with a separator line in front it reads the same, only at later positions. The
bound of a cursor does not matter either, as it is above the length of the text.
-/

namespace Columnar.Yaml

/-! ## Readings that end alike -/

/-- The reason of a fault that refuses. -/
def Fault.refusal? : Fault → Option Refusal
  | .refused r => some r
  | _ => none

/-- Where a reading succeeds, its result has the property. -/
def Yields {α : Type} (P : α → Prop) (x : Except Fault α) : Prop := ∀ a, x = .ok a → P a

namespace Yields

variable {α β : Type} {P : α → Prop} {Q : β → Prop}

theorem ok {a : α} (h : P a) : Yields P (.ok a) := by
  rintro _ ⟨⟩
  exact h

theorem error {f : Fault} : Yields P (.error f) := by
  rintro _ ⟨⟩

theorem bind {x : Except Fault α} {f : α → Except Fault β} (hx : Yields P x)
    (hf : ∀ a, P a → Yields Q (f a)) : Yields Q (x >>= f) := by
  cases x with
  | error f => exact error
  | ok a => exact hf a (hx a rfl)

theorem bind_any {x : Except Fault α} {f : α → Except Fault β} (hf : ∀ a, Yields Q (f a)) :
    Yields Q (x >>= f) := by
  cases x with
  | error f => exact error
  | ok a => exact hf a

theorem ite {p : Prop} [Decidable p] {x y : Except Fault α} (hx : Yields P x) (hy : Yields P y) :
    Yields P (if p then x else y) := by
  split
  · exact hx
  · exact hy

end Yields

/-- Two readings end alike: with related results, or with faults that refuse for one reason or not
at all. -/
inductive Alike {α β : Type} (R : α → β → Prop) : Except Fault α → Except Fault β → Prop
  | ok {a : α} {b : β} : R a b → Alike R (.ok a) (.ok b)
  | fault {f g : Fault} : f.refusal? = g.refusal? → Alike R (.error f) (.error g)

namespace Alike

variable {α β γ δ : Type} {R : α → β → Prop} {S : γ → δ → Prop}

theorem marked {context context' : Option Context} {began began' : Option Mark}
    {problem problem' : Problem} {place place' : Mark} :
    Alike R (.error (.marked context began problem place))
      (.error (.marked context' began' problem' place')) := .fault rfl

theorem bind {x : Except Fault α} {y : Except Fault β} {f : α → Except Fault γ}
    {g : β → Except Fault δ} (hx : Alike R x y) (hf : ∀ a b, R a b → Alike S (f a) (g b)) :
    Alike S (x >>= f) (y >>= g) := by
  cases hx with
  | ok h => exact hf _ _ h
  | fault h => exact .fault h

theorem map {x : Except Fault α} {y : Except Fault β} {f : α → γ} {g : β → δ}
    (hx : Alike R x y) (hf : ∀ a b, R a b → S (f a) (g b)) : Alike S (x.map f) (y.map g) := by
  cases hx with
  | ok h => exact .ok (hf _ _ h)
  | fault h => exact .fault h

theorem mono {S : α → β → Prop} {x : Except Fault α} {y : Except Fault β} (hx : Alike R x y)
    (hRS : ∀ a b, R a b → S a b) : Alike S x y := by
  cases hx with
  | ok h => exact .ok (hRS _ _ h)
  | fault h => exact .fault h

theorem and {P : α → Prop} {x : Except Fault α} {y : Except Fault β} (hx : Alike R x y)
    (hP : Yields P x) : Alike (fun a b => R a b ∧ P a) x y := by
  cases hx with
  | ok h => exact .ok ⟨h, hP _ rfl⟩
  | fault h => exact .fault h

theorem refl (x : Except Fault α) : Alike Eq x x := by
  cases x with
  | ok a => exact .ok rfl
  | error f => exact .fault rfl

theorem ite {p : Prop} [Decidable p] {x x' : Except Fault α} {y y' : Except Fault β}
    (hx : p → Alike R x y) (hx' : ¬p → Alike R x' y') :
    Alike R (if p then x else x') (if p then y else y') := by
  by_cases h : p
  · rw [if_pos h, if_pos h]
    exact hx h
  · rw [if_neg h, if_neg h]
    exact hx' h

end Alike

/-! ## Positions -/

/-- The position with a separator line, three hyphens and a line feed, in front of the text. -/
def Mark.shift (m : Mark) : Mark := ⟨m.index + 4, m.line + 1, m.column⟩

namespace Cursor

/-- The cursor with a separator line in front of its text. -/
def shift (c : Cursor) : Cursor := ⟨c.rest, c.mark.shift, c.bound + 4⟩

/-- The bound is above the length of the rest, fewer than `n` characters are left, and no byte
order mark starts the text. -/
structure Fit (n : Nat) (c : Cursor) : Prop where
  bounded : c.rest.length < c.bound
  left : c.rest.length < n
  unmarked : c.mark.index = 0 → c.peek ≠ '\uFEFF'

variable {c : Cursor} {n : Nat}

theorem Fit.mono {m : Nat} (h : c.Fit n) (hnm : n ≤ m) : c.Fit m :=
  ⟨h.bounded, Nat.lt_of_lt_of_le h.left hnm, h.unmarked⟩

@[simp] theorem rest_shift (c : Cursor) : c.shift.rest = c.rest := rfl

@[simp] theorem mark_shift (c : Cursor) : c.shift.mark = c.mark.shift := rfl

@[simp] theorem bound_shift (c : Cursor) : c.shift.bound = c.bound + 4 := rfl

@[simp] theorem peek_shift (c : Cursor) : c.shift.peek = c.peek := rfl

@[simp] theorem peekAt_shift (k : Nat) (c : Cursor) : c.shift.peekAt k = c.peekAt k := rfl

@[simp] theorem atEnd_shift (c : Cursor) : c.shift.atEnd = c.atEnd := rfl

@[simp] theorem column_shift (c : Cursor) : c.shift.column = c.column := rfl

@[simp] theorem atSeparator_shift (c : Cursor) : c.shift.atSeparator = c.atSeparator := rfl

theorem moved_shift (m : Mark) (x : Char) (rest : List Char) :
    moved m.shift x rest = (moved m x rest).shift := by
  unfold moved
  split
  · simp [Mark.shift, Nat.add_right_comm]
  · split
    · simp [Mark.shift, Nat.add_right_comm]
    · simp [Mark.shift, Nat.add_right_comm]

@[simp] theorem next_shift (c : Cursor) : c.shift.next = c.next.shift := by
  obtain ⟨rest, mark, bound⟩ := c
  cases rest with
  | nil => rfl
  | cons x rest => simp [next, shift, moved_shift]

@[simp] theorem skip_shift (k : Nat) (c : Cursor) : c.shift.skip k = (c.skip k).shift := by
  induction k generalizing c with
  | zero => rfl
  | succ k ih => rw [skip, next_shift, ih, skip]

@[simp] theorem skipWhile_shift (p : Char → Bool) (c : Cursor) :
    c.shift.skipWhile p = (c.skipWhile p).shift := skip_shift _ c

@[simp] theorem takeWhile_shift (p : Char → Bool) (c : Cursor) :
    c.shift.takeWhile p = ((c.takeWhile p).1, (c.takeWhile p).2.shift) := by
  rw [takeWhile, skipWhile_shift]
  rfl

@[simp] theorem skipSpaces_shift (c : Cursor) : c.shift.skipSpaces = c.skipSpaces.shift :=
  skip_shift _ c

@[simp] theorem skipComment_shift (c : Cursor) : c.shift.skipComment = c.skipComment.shift := by
  unfold skipComment
  rw [peek_shift, skipWhile_shift]
  split <;> rfl

@[simp] theorem lineBreak_shift (c : Cursor) :
    c.shift.lineBreak = (c.lineBreak.1, c.lineBreak.2.shift) := by
  unfold lineBreak
  simp only [peek_shift, peekAt_shift, skip_shift, next_shift]
  split
  · rfl
  split
  · rfl
  split <;> rfl

/-! ## What is left -/

theorem Fit.next (h : c.Fit n) : c.next.Fit n := by
  obtain ⟨rest, mark, bound⟩ := c
  cases rest with
  | nil => exact h
  | cons x rest =>
    have hbounded : rest.length + 1 < bound := h.bounded
    have hleft : rest.length + 1 < n := h.left
    refine ⟨?_, ?_, ?_⟩
    · change rest.length < bound
      omega
    · change rest.length < n
      omega
    · intro hindex
      have hpos : 0 < (moved mark x rest).index := by
        unfold moved
        split
        · exact Nat.succ_pos _
        · split <;> exact Nat.succ_pos _
      change (moved mark x rest).index = 0 at hindex
      omega

theorem Fit.next_lt (h : c.Fit (n + 1)) (hpeek : c.peek ≠ endChar) : c.next.Fit n := by
  have hnext := h.next
  have hrest := rest_of_peek rfl hpeek
  have hleft := h.left
  rw [hrest, List.length_cons] at hleft
  exact ⟨hnext.bounded, by omega, hnext.unmarked⟩

theorem Fit.skip (h : c.Fit n) (k : Nat) : (c.skip k).Fit n := by
  induction k generalizing c with
  | zero => exact h
  | succ k ih => exact ih h.next

theorem Fit.skip_lt (h : c.Fit (n + 1)) (hpeek : c.peek ≠ endChar) (k : Nat) :
    (c.skip (k + 1)).Fit n := (h.next_lt hpeek).skip k

theorem Fit.skipWhile (h : c.Fit n) (p : Char → Bool) : (c.skipWhile p).Fit n := h.skip _

theorem Fit.skipWhile_lt {p : Char → Bool} (h : c.Fit (n + 1)) (hp : p c.peek = true)
    (hpeek : c.peek ≠ endChar) : (c.skipWhile p).Fit n := by
  have hrest := rest_of_peek rfl hpeek
  have hrun : (c.run p).length = (c.next.run p).length + 1 := by
    rw [run, hrest, List.takeWhile_cons_of_pos hp, List.length_cons]
    rfl
  rw [Cursor.skipWhile, hrun]
  exact h.skip_lt hpeek _

theorem Fit.skipSpaces (h : c.Fit n) : c.skipSpaces.Fit n := h.skip _

theorem Fit.skipComment (h : c.Fit n) : c.skipComment.Fit n := by
  unfold Cursor.skipComment
  split
  · exact h.skip _
  · exact h

theorem Fit.lineBreak (h : c.Fit n) : c.lineBreak.2.Fit n := by
  unfold Cursor.lineBreak
  dsimp only
  split
  · exact h.skip 2
  split
  · exact h.next
  split
  · exact h.next
  · exact h

theorem Fit.lineBreak_lt {b : Char} {rest : Cursor} (h : c.Fit (n + 1))
    (hbreak : c.lineBreak = (some b, rest)) : rest.Fit n := by
  have hpeek : c.peek ≠ endChar := by
    intro hpeek
    rw [Cursor.lineBreak, hpeek] at hbreak
    simp [endChar] at hbreak
  unfold Cursor.lineBreak at hbreak
  dsimp only at hbreak
  split at hbreak
  · cases hbreak
    exact h.skip_lt hpeek 1
  split at hbreak
  · cases hbreak
    exact h.next_lt hpeek
  split at hbreak
  · cases hbreak
    exact h.next_lt hpeek
  · cases hbreak

end Cursor

end Columnar.Yaml
