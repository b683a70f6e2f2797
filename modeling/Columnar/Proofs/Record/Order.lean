import Columnar.Proofs.Record.Lookup

/-!
# Names in the order in which they are first written

Entries written one after the other list each name at the place of its first entry: a later entry
of the name changes what is stored and not where. Whatever the values are made from, the names of
the record are the first occurrences among the names written.
-/

namespace Columnar.Record

section FirstOccurrences

variable {α : Type} [BEq α] [LawfulBEq α]

theorem eraseDups_of_nodup {xs : List α} (h : xs.Nodup) : xs.eraseDups = xs := by
  induction xs with
  | nil => exact List.eraseDups_nil
  | cons x rest ih =>
    obtain ⟨hnew, hrest⟩ := List.nodup_cons.mp h
    have hothers : rest.filter (fun y => !y == x) = rest := by
      apply List.filter_eq_self.mpr
      intro y hy
      have hne : y ≠ x := fun heq => hnew (heq ▸ hy)
      simpa using hne
    rw [List.eraseDups_cons, hothers, ih hrest]

/-- What occurs in front already does not occur first any more. -/
theorem eraseDups_append_cons_of_mem {x : α} {xs : List α} (h : x ∈ xs) (ys : List α) :
    (xs ++ x :: ys).eraseDups = (xs ++ ys).eraseDups := by
  have hknown : ¬ xs.contains x = false := by simpa using h
  rw [List.eraseDups_append, List.eraseDups_append, List.cons_removeAll, if_neg hknown]

theorem eraseDups_append_of_forall_mem {xs ys : List α} (hxs : xs.Nodup) (h : ∀ y ∈ ys, y ∈ xs) :
    (xs ++ ys).eraseDups = xs := by
  induction ys with
  | nil => rw [List.append_nil, eraseDups_of_nodup hxs]
  | cons y rest ih =>
    rw [List.forall_mem_cons] at h
    rw [eraseDups_append_cons_of_mem h.1, ih h.2]

theorem nodup_eraseDups : ∀ xs : List α, xs.eraseDups.Nodup
  | [] => List.nodup_nil
  | x :: rest => by
    rw [List.eraseDups_cons, List.nodup_cons]
    refine ⟨?_, nodup_eraseDups _⟩
    intro h
    have hother := (List.mem_filter.mp (List.mem_eraseDups.mp h)).2
    simp at hother
termination_by xs => xs.length
decreasing_by exact Nat.lt_succ_of_le (List.length_filter_le _ rest)

/-- First occurrences may be taken of the front of a list first. -/
theorem eraseDups_eraseDups_append (xs ys : List α) :
    (xs.eraseDups ++ ys).eraseDups = (xs ++ ys).eraseDups := by
  have hsame : ys.removeAll xs.eraseDups = ys.removeAll xs := by
    simp [List.removeAll]
  rw [List.eraseDups_append, List.eraseDups_append, hsame, eraseDups_of_nodup (nodup_eraseDups xs)]

/-- What does not pass a test may be left out before or after. -/
theorem eraseDups_filter (p : α → Bool) : ∀ xs : List α,
    (xs.filter p).eraseDups = xs.eraseDups.filter p
  | [] => rfl
  | x :: rest => by
    have hrest := eraseDups_filter p (rest.filter fun y => !y == x)
    rw [List.eraseDups_cons]
    by_cases hx : p x = true
    · have hswap : (rest.filter p).filter (fun y => !y == x) =
          (rest.filter fun y => !y == x).filter p := by
        rw [List.filter_filter, List.filter_filter]
        exact List.filter_congr fun y _ => Bool.and_comm _ _
      rw [List.filter_cons_of_pos hx, List.filter_cons_of_pos hx, List.eraseDups_cons, hswap, hrest]
    · have hgone : (rest.filter fun y => !y == x).filter p = rest.filter p := by
        rw [List.filter_filter]
        apply List.filter_congr
        intro y _
        have hne : p y = true → y ≠ x := fun hy heq => hx (heq ▸ hy)
        cases hy : p y with
        | false => rfl
        | true => simpa using hne hy
      rw [List.filter_cons_of_neg hx, List.filter_cons_of_neg hx, ← hrest, hgone]
termination_by xs => xs.length
decreasing_by exact Nat.lt_succ_of_le (List.length_filter_le _ rest)

end FirstOccurrences

variable {β γ : Type}

/-- Entries written by steps that each store something under one name, the names of a record and
the names written behind each other give the names in order. -/
theorem names_foldl {step : Record β → String × γ → Record β}
    (hstep : ∀ r e, ∃ value, step r e = put e.1 value r) (entries : List (String × γ))
    {r : Record β} (hr : Distinct r) :
    names (entries.foldl step r) = (names r ++ names entries).eraseDups := by
  induction entries generalizing r with
  | nil =>
    have hnone : names ([] : Record γ) = [] := rfl
    rw [List.foldl_nil, hnone, List.append_nil, eraseDups_of_nodup hr]
  | cons e rest ih =>
    obtain ⟨value, hvalue⟩ := hstep r e
    have hnames : names (e :: rest) = e.1 :: names rest := rfl
    rw [List.foldl_cons, hvalue, ih (hr.put e.1 value), names_put, hnames]
    split
    · rw [eraseDups_append_cons_of_mem ‹_›]
    · rw [List.append_assoc, List.singleton_append]

/-- Collapsing keeps the first occurrence of each name. -/
theorem names_ofEntries (entries : List (String × β)) :
    names (ofEntries entries) = (names entries).eraseDups := by
  have hnone : Distinct ([] : Record β) := List.nodup_nil
  exact names_foldl (fun _ e => ⟨e.2, rfl⟩) entries hnone

/-! ## Collapsed entries -/

/-- The record keeps of each name among the entries its first place and its last value. -/
structure Collapses (entries : List (String × β)) (record : Record β) : Prop where
  names_eq : names record = (names entries).eraseDups
  get?_eq : ∀ name, get? name record = last? name entries

theorem collapses_ofEntries (entries : List (String × β)) :
    Collapses entries (ofEntries entries) :=
  ⟨names_ofEntries entries, fun name => get?_ofEntries name entries⟩

/-- A record is known by its names in order and by what it stores under each. -/
theorem eq_of_get?_eq {r s : Record β} (hr : Distinct r) (hnames : names r = names s)
    (hget : ∀ name, get? name r = get? name s) : r = s := by
  induction r generalizing s with
  | nil => exact (List.map_eq_nil_iff.mp hnames.symm).symm
  | cons e rest ih =>
    cases s with
    | nil => cases hnames
    | cons f more =>
      obtain ⟨name, value⟩ := e
      obtain ⟨name', value'⟩ := f
      obtain ⟨hnew, hrest⟩ := hr.tail
      obtain ⟨hname, htail⟩ := List.cons.inj hnames
      obtain rfl : name = name' := hname
      have hvalue : value = value' := by simpa [get?] using hget name
      have hnew' : name ∉ names more := by
        intro hmem
        apply hnew
        show name ∈ List.map Prod.fst rest
        rw [htail]
        exact hmem
      have hbelow : ∀ other, get? other rest = get? other more := by
        intro other
        by_cases heq : name = other
        · subst heq
          rw [get?_eq_none_iff.mpr hnew, get?_eq_none_iff.mpr hnew']
        · simpa [get?, heq] using hget other
      rw [ih hrest htail hbelow, hvalue]

/-- Entries collapse to one record. -/
theorem Collapses.unique {entries : List (String × β)} {r s : Record β}
    (hr : Collapses entries r) (hs : Collapses entries s) : r = s := by
  have hdistinct : Distinct r := by
    unfold Distinct
    rw [hr.names_eq]
    exact nodup_eraseDups _
  exact eq_of_get?_eq hdistinct (hr.names_eq.trans hs.names_eq.symm)
    fun name => (hr.get?_eq name).trans (hs.get?_eq name).symm

end Columnar.Record
