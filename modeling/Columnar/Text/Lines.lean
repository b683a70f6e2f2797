/-!
# Lines

A text splits into lines at every line feed; a text without one is a single line, so there is
always a line. `unifyBreaks` turns the pair of carriage return and line feed into a line feed. All
of this is stated for lists over any alphabet, since it serves decoded text and raw bytes alike.
-/

namespace Columnar.Text

variable {α : Type} [DecidableEq α]

/-- Replace each pair of a carriage return and a line feed by the line feed. -/
def unifyBreaks (cr lf : α) : List α → List α
  | [] => []
  | [x] => [x]
  | x :: y :: rest =>
    if x = cr ∧ y = lf then lf :: unifyBreaks cr lf rest else x :: unifyBreaks cr lf (y :: rest)

def lines (cs : List Char) : List (List Char) := cs.splitOn '\n'

def unlines (ls : List (List Char)) : List Char := ['\n'].intercalate ls

/-- The lines of a text joined again are the text. -/
theorem unlines_lines (cs : List Char) : unlines (lines cs) = cs := List.intercalate_splitOn '\n'

/-- Lines without a line feed are the lines of the text that joins them. -/
theorem lines_unlines {ls : List (List Char)} (hne : ls ≠ []) (h : ∀ l ∈ ls, '\n' ∉ l) :
    lines (unlines ls) = ls := List.splitOn_intercalate '\n' h hne

/-- Without a line feed nothing is replaced. -/
theorem unifyBreaks_eq_self (cr lf : α) {xs : List α} (h : lf ∉ xs) :
    unifyBreaks cr lf xs = xs := by
  fun_induction unifyBreaks cr lf xs with
  | case1 => rfl
  | case2 => rfl
  | case3 x y rest hxy => simp [hxy.2] at h
  | case4 x y rest hxy ih => rw [ih (fun hm => h (List.mem_cons_of_mem _ hm))]

end Columnar.Text
