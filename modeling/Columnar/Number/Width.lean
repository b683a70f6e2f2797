/-!
# Widths of signed integers

Integer columns are stored in 8, 16, 32 or 64 bits, in two's complement. Each integer has a
smallest width that holds it, unless it needs more than 64 bits. Main statement: the width that is
found holds the integer, and no smaller one does.
-/

namespace Columnar

/-- The number of bits of an integer column. -/
inductive Width
  | w8
  | w16
  | w32
  | w64
deriving DecidableEq, Repr

namespace Width

/-- The widths, smallest first. -/
def all : List Width := [.w8, .w16, .w32, .w64]

def bits : Width → Nat
  | .w8 => 8
  | .w16 => 16
  | .w32 => 32
  | .w64 => 64

def ofBits? (n : Int) : Option Width := all.find? fun w => (w.bits : Int) = n

/-- The number of integers of the width that are not negative, which is also the number of those
that are: two to the number of bits beside the sign. -/
def half (w : Width) : Int := Nat.pow 2 (w.bits - 1)

/-- Is the integer in the signed range of the width? -/
def Holds (w : Width) (n : Int) : Prop := -w.half ≤ n ∧ n < w.half

instance (w : Width) (n : Int) : Decidable (w.Holds n) := inferInstanceAs (Decidable (_ ∧ _))

/-- The smallest width that holds an integer. -/
def ofInt? (n : Int) : Option Width := all.find? fun w => w.Holds n

def max (v w : Width) : Width := if v.bits ≤ w.bits then w else v

theorem mem_all (w : Width) : w ∈ all := by
  cases w <;> decide

theorem bits_injective {v w : Width} (h : v.bits = w.bits) : v = w := by
  cases v <;> cases w <;> first | rfl | exact absurd h (by decide)

theorem half_le_of_bits_le {v w : Width} (h : v.bits ≤ w.bits) : v.half ≤ w.half :=
  Int.ofNat_le.mpr (Nat.pow_le_pow_right (by decide) (Nat.sub_le_sub_right h 1))

theorem holds_of_ofInt? {n : Int} {w : Width} (h : ofInt? n = some w) : w.Holds n := by
  simpa using List.find?_some h

theorem Holds.of_bits_le {v w : Width} {n : Int} (h : v.Holds n) (hvw : v.bits ≤ w.bits) :
    w.Holds n := by
  have hhalf := half_le_of_bits_le hvw
  obtain ⟨hlow, hhigh⟩ := h
  exact ⟨by omega, by omega⟩

/-- No smaller width holds the integer. -/
theorem bits_le_of_holds {n : Int} {v w : Width} (h : ofInt? n = some w) (hv : v.Holds n) :
    w.bits ≤ v.bits := by
  obtain ⟨-, smaller, larger, hall, hsmaller⟩ := List.find?_eq_some_iff_append.mp h
  have hsorted : all.Pairwise fun a b => a.bits ≤ b.bits := by decide
  have hmem := mem_all v
  rw [hall] at hsorted hmem
  rcases List.mem_append.mp hmem with hbefore | hbehind
  · have hout := hsmaller v hbefore
    simp [hv] at hout
  rcases List.mem_cons.mp hbehind with rfl | hbehind
  · exact Nat.le_refl _
  · exact List.rel_of_pairwise_cons (List.pairwise_append.mp hsorted).2.1 hbehind

end Width

end Columnar
