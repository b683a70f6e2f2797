import Columnar.Path.Cache

/-!
# What a cache of paths holds

Compiling through a cache takes one of four ways: the text is kept, it is malformed, there is no
room, or its path is new. On each of them the cache goes on to hold only paths that are what their
own texts compile to, so what it hands out is what compiling without a cache gives.
-/

namespace Columnar.Path

/-- A compiled path keeps the text that it was compiled from. -/
theorem text_of_compile {text : String} {p : Path} (h : compile text = .ok p) : p.text = text := by
  unfold compile at h
  split at h
  · split at h
    · cases h
    · split at h
      · cases h
      · exact (Except.ok.inj h) ▸ rfl
  · cases h

namespace Cache

theorem find?_eq_some {text : String} {c : Cache} {p : Path} (h : c.find? text = some p) :
    p ∈ c.paths ∧ p.text = text :=
  ⟨List.mem_of_find?_eq_some h, by simpa using List.find?_some h⟩

/-- The four ways of compiling through a cache. -/
theorem compile_cases (text : String) (c : Cache) :
    (∃ p, c.find? text = some p ∧ c.compile text = (.ok p, c.touch p)) ∨
    (∃ e, c.find? text = none ∧ Path.compile text = .error e ∧
      c.compile text = (.error (.path e), c)) ∨
    (∃ p, c.find? text = none ∧ Path.compile text = .ok p ∧ c.capacity < 1 ∧
      c.compile text = (.error .noRoom, c)) ∨
    (∃ p, c.find? text = none ∧ Path.compile text = .ok p ∧ 1 ≤ c.capacity ∧
      c.compile text = (.ok p, c.insert p)) := by
  unfold compile
  cases hfind : c.find? text with
  | some p => exact Or.inl ⟨p, rfl, rfl⟩
  | none =>
    refine Or.inr ?_
    cases hcompile : Path.compile text with
    | error e => exact Or.inl ⟨e, rfl, rfl, rfl⟩
    | ok p =>
      refine Or.inr ?_
      by_cases hroom : c.capacity < 1
      · exact Or.inl ⟨p, rfl, rfl, hroom, if_pos hroom⟩
      · exact Or.inr ⟨p, rfl, rfl, Int.not_lt.mp hroom, if_neg hroom⟩

theorem capacity_compile (text : String) (c : Cache) :
    (c.compile text).2.capacity = c.capacity := by
  rcases compile_cases text c with ⟨p, -, h⟩ | ⟨e, -, -, h⟩ | ⟨p, -, -, -, h⟩ | ⟨p, -, -, -, h⟩ <;>
    rw [h] <;> rfl

/-- Every kept path is what its text compiles to. -/
structure Sound (c : Cache) : Prop where
  compiled : ∀ p ∈ c.paths, Path.compile p.text = .ok p

theorem sound_empty (capacity : Int) : (empty capacity).Sound :=
  ⟨fun _ hp => absurd hp List.not_mem_nil⟩

namespace Sound

variable {c : Cache} {text : String} {p : Path}

theorem of_find? (h : c.Sound) (hfind : c.find? text = some p) : Path.compile text = .ok p := by
  obtain ⟨hmem, rfl⟩ := find?_eq_some hfind
  exact h.compiled p hmem

theorem touch (h : c.Sound) (hp : Path.compile p.text = .ok p) : (c.touch p).Sound := by
  refine ⟨fun q hq => ?_⟩
  rcases List.mem_cons.mp hq with rfl | hq
  · exact hp
  · exact h.compiled q (List.mem_filter.mp hq).1

theorem insert (h : c.Sound) (hp : Path.compile p.text = .ok p) : (c.insert p).Sound := by
  refine ⟨fun q hq => ?_⟩
  -- Dropping the least recent paths leaves only paths that were there before, and the new one.
  rcases List.mem_cons.mp (List.mem_of_mem_take hq) with rfl | hq
  · exact hp
  · exact h.compiled q hq

/-- Hits, misses, evictions and failures keep every path what its text compiles to. -/
theorem compile (h : c.Sound) (text : String) : (c.compile text).2.Sound := by
  rcases compile_cases text c with
    ⟨p, hfind, hc⟩ | ⟨e, -, -, hc⟩ | ⟨p, -, -, -, hc⟩ | ⟨p, -, hp, -, hc⟩
  · rw [hc]
    exact h.touch (h.compiled p (find?_eq_some hfind).1)
  · rw [hc]
    exact h
  · rw [hc]
    exact h
  · rw [hc]
    have htext : p.text = text := text_of_compile hp
    exact h.insert (htext ▸ hp)

/-- Where there is room for a path, a cache answers as compiling without it does. -/
theorem compile_eq (h : c.Sound) (hroom : 1 ≤ c.capacity) (text : String) :
    (c.compile text).1 = (Path.compile text).mapError .path := by
  rcases compile_cases text c with
    ⟨p, hfind, hc⟩ | ⟨e, -, he, hc⟩ | ⟨p, -, -, hfull, -⟩ | ⟨p, -, hp, -, hc⟩
  · rw [hc, h.of_find? hfind]
    rfl
  · rw [hc, he]
    rfl
  · omega
  · rw [hc, hp]
    rfl

end Sound

end Cache

end Columnar.Path
