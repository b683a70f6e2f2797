/-!
# Ordered records

A record is a list of entries, each a name with a value, in the order in which the names were
first written. Writing under a name that is present replaces the value in its place; writing
under a new name adds an entry at the end. Lists of entries that name something twice are no
records yet: `Record.ofEntries` collapses them, so that each name keeps its first position and
its last value.
-/

namespace Columnar

/-- Entries by name, in order. -/
abbrev Record (β : Type) : Type := List (String × β)

namespace Record

variable {β : Type}

/-- The first value stored under a name. -/
def get? (name : String) : Record β → Option β
  | [] => none
  | (n, v) :: rest => if n = name then some v else get? name rest

/-- Store a value: in place of the first entry of that name, else behind all entries. -/
def put (name : String) (value : β) : Record β → Record β
  | [] => [(name, value)]
  | (n, v) :: rest => if n = name then (n, value) :: rest else (n, v) :: put name value rest

/-- The record that a list of entries describes: first position, last value. -/
def ofEntries (entries : List (String × β)) : Record β :=
  entries.foldl (fun r e => put e.1 e.2 r) []

/-- The names, in order. -/
def names (r : Record β) : List String := r.map Prod.fst

/-- No name occurs twice. -/
def Distinct (r : Record β) : Prop := (names r).Nodup

instance (r : Record β) : Decidable (Distinct r) := inferInstanceAs (Decidable (List.Nodup _))

theorem get?_put_self (name : String) (value : β) (r : Record β) :
    get? name (put name value r) = some value := by
  induction r with
  | nil => simp [put, get?]
  | cons e rest ih => by_cases h : e.1 = name <;> simp [put, get?, h, ih]

theorem get?_put_of_ne {name other : String} (h : other ≠ name) (value : β) (r : Record β) :
    get? other (put name value r) = get? other r := by
  induction r with
  | nil => simp [put, get?, Ne.symm h]
  | cons e rest ih =>
    by_cases he : e.1 = name
    · simp [put, get?, he, Ne.symm h]
    · by_cases ho : e.1 = other
      · subst ho
        simp [put, get?, he]
      · simp [put, get?, he, ho, ih]

/-- Writing keeps the names in place and adds a name at the end if it is new. -/
theorem names_put (name : String) (value : β) (r : Record β) :
    names (put name value r) = if name ∈ names r then names r else names r ++ [name] := by
  induction r with
  | nil => simp [put, names]
  | cons e rest ih =>
    by_cases h : e.1 = name
    · simp [put, names, h]
    · have h' : ¬ name = e.1 := fun e' => h e'.symm
      simp only [names] at ih
      by_cases hm : name ∈ List.map Prod.fst rest <;> simp [put, names, h, h', ih, hm]

theorem Distinct.put {r : Record β} (h : Distinct r) (name : String) (value : β) :
    Distinct (put name value r) := by
  unfold Distinct at *
  rw [names_put]
  split
  · exact h
  · rename_i hm
    refine List.nodup_append.2 ⟨h, by simp, ?_⟩
    intro a ha b hb he
    simp only [List.mem_singleton] at hb
    exact hm (hb ▸ he ▸ ha)

theorem Distinct.foldl_put (entries : List (String × β)) {r : Record β} (h : Distinct r) :
    Distinct (entries.foldl (fun r e => Record.put e.1 e.2 r) r) := by
  induction entries generalizing r with
  | nil => exact h
  | cons e rest ih => exact ih (h.put e.1 e.2)

/-- Collapsed entries name nothing twice. -/
theorem distinct_ofEntries (entries : List (String × β)) : Distinct (ofEntries entries) :=
  Distinct.foldl_put entries (by simp [Distinct, names])

end Record

end Columnar
