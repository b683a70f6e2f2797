import Mathlib.Data.List.Forall2

/-!
# Steps that may fail

Steps in a row end with the first failure. A row of steps fails only because one of them does, and
succeeds only if all of them do, each with the result that stands in its place.
-/

namespace Columnar

variable {ε α β : Type}

theorem bind_eq_error {x : Except ε α} {f : α → Except ε β} {e : ε} (h : (x >>= f) = .error e) :
    x = .error e ∨ ∃ a, x = .ok a ∧ f a = .error e := by
  cases x with
  | error e' =>
    cases h
    exact Or.inl rfl
  | ok a => exact Or.inr ⟨a, rfl, h⟩

theorem bind_eq_ok {x : Except ε α} {f : α → Except ε β} {b : β} (h : (x >>= f) = .ok b) :
    ∃ a, x = .ok a ∧ f a = .ok b := by
  cases x with
  | error e => cases h
  | ok a => exact ⟨a, rfl, h⟩

variable {f g : α → Except ε β} {xs : List α} {ys : List β}

theorem exists_of_mapM_error {e : ε} (h : xs.mapM f = .error e) : ∃ x ∈ xs, f x = .error e := by
  induction xs with
  | nil => cases h
  | cons x xs ih =>
    rw [List.mapM_cons] at h
    rcases bind_eq_error h with hx | ⟨b, -, h⟩
    · exact ⟨x, List.mem_cons_self, hx⟩
    · rcases bind_eq_error h with hxs | ⟨bs, -, h⟩
      · obtain ⟨y, hy, hfault⟩ := ih hxs
        exact ⟨y, List.mem_cons_of_mem _ hy, hfault⟩
      · cases h

theorem forall₂_of_mapM (h : xs.mapM f = .ok ys) :
    List.Forall₂ (fun x y => f x = .ok y) xs ys := by
  induction xs generalizing ys with
  | nil =>
    obtain rfl := Except.ok.inj h
    exact .nil
  | cons x xs ih =>
    rw [List.mapM_cons] at h
    obtain ⟨y, hx, h⟩ := bind_eq_ok h
    obtain ⟨rest, hxs, h⟩ := bind_eq_ok h
    obtain rfl := Except.ok.inj h
    exact .cons hx (ih hxs)

/-- Each result stands in the place of its step. -/
theorem getElem?_of_mapM (h : xs.mapM f = .ok ys) :
    ys.length = xs.length ∧
      ∀ (n : Nat) x y, xs[n]? = some x → ys[n]? = some y → f x = .ok y := by
  have hall := forall₂_of_mapM h
  refine ⟨hall.length_eq.symm, ?_⟩
  intro n x y hx hy
  obtain ⟨hxs, rfl⟩ := List.getElem?_eq_some_iff.mp hx
  obtain ⟨hys, rfl⟩ := List.getElem?_eq_some_iff.mp hy
  exact hall.get hxs hys

theorem exists_of_mapM_ok (h : xs.mapM f = .ok ys) : ∀ x ∈ xs, ∃ y, f x = .ok y := by
  intro x hx
  obtain ⟨hlength, hplaces⟩ := getElem?_of_mapM h
  obtain ⟨n, hn⟩ := List.mem_iff_getElem?.mp hx
  have hlt : n < ys.length := hlength ▸ (List.getElem?_eq_some_iff.mp hn).1
  exact ⟨ys[n], hplaces n x ys[n] hn (List.getElem?_eq_getElem hlt)⟩

theorem exists_of_mem_mapM (h : xs.mapM f = .ok ys) : ∀ y ∈ ys, ∃ x, f x = .ok y := by
  intro y hy
  obtain ⟨hlength, hplaces⟩ := getElem?_of_mapM h
  obtain ⟨n, hn⟩ := List.mem_iff_getElem?.mp hy
  have hlt : n < xs.length := hlength ▸ (List.getElem?_eq_some_iff.mp hn).1
  exact ⟨xs[n], hplaces n xs[n] y (List.getElem?_eq_getElem hlt) hn⟩

theorem mapM_congr (h : ∀ x ∈ xs, f x = g x) : xs.mapM f = xs.mapM g := by
  induction xs with
  | nil => rfl
  | cons x xs ih =>
    obtain ⟨hx, hxs⟩ := List.forall_mem_cons.mp h
    rw [List.mapM_cons, List.mapM_cons, hx, ih hxs]

end Columnar
