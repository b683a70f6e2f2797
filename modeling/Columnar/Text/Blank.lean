/-!
# Blank characters

Two notions of blank are in use. `isBlank` is Unicode's white space together with the four
information separators; it decides what trimming removes from a text. `isBlankByte` is its
counterpart on bytes that are not decoded yet, and knows only the ASCII blanks without the
information separators. A trimmed text begins and ends with a character that is not blank.
-/

namespace Columnar.Text

def isBlank (c : Char) : Bool :=
  let n := c.toNat
  (0x09 ≤ n && n ≤ 0x0D) || (0x1C ≤ n && n ≤ 0x20) || n == 0x85 || n == 0xA0 || n == 0x1680 ||
    (0x2000 ≤ n && n ≤ 0x200A) || n == 0x2028 || n == 0x2029 || n == 0x202F || n == 0x205F ||
    n == 0x3000

/-- A blank among bytes: tab, line feed, vertical tab, form feed, carriage return, space. -/
def isBlankByte (b : UInt8) : Bool := (0x09 ≤ b && b ≤ 0x0D) || b == 0x20

/-- Drop what satisfies the test from the end of a list. -/
def dropBack {α : Type} (p : α → Bool) (xs : List α) : List α :=
  (xs.reverse.dropWhile p).reverse

def trimRight (cs : List Char) : List Char := dropBack isBlank cs

def trim (cs : List Char) : List Char := trimRight (cs.dropWhile isBlank)

/-- What is dropped from the end satisfies the test. -/
theorem dropBack_append {α : Type} (p : α → Bool) (xs : List α) :
    ∃ back, xs = dropBack p xs ++ back ∧ ∀ x ∈ back, p x = true := by
  refine ⟨(xs.reverse.takeWhile p).reverse, ?_, ?_⟩
  · rw [dropBack, ← List.reverse_append, List.takeWhile_append_dropWhile, List.reverse_reverse]
  · intro x hx
    have := List.all_takeWhile (l := xs.reverse) (p := p)
    exact List.all_eq_true.1 this x (List.mem_reverse.1 hx)

/-- A text without blanks is left alone. -/
theorem trim_eq_self {cs : List Char} (h : ∀ c ∈ cs, isBlank c = false) : trim cs = cs := by
  have keep : ∀ xs : List Char, (∀ c ∈ xs, isBlank c = false) → xs.dropWhile isBlank = xs := by
    intro xs hx
    cases xs with
    | nil => rfl
    | cons x rest => simp [hx x (by simp)]
  rw [trim, keep cs h, trimRight, dropBack, keep, List.reverse_reverse]
  intro c hc
  exact h c (List.mem_reverse.1 hc)

end Columnar.Text
