import Columnar.Record

/-!
# Looking up names in entry lists

An entry list may name something twice. `get?` reads the first entry of a name and `last?` the
last one; they agree on records. Collapsing a list keeps what `last?` reads, so every statement
about collapsed entries is a statement about the last value of each name.
-/

namespace Columnar.Record

variable {β γ : Type}

/-- The last value stored under a name. -/
def last? (name : String) (entries : List (String × β)) : Option β := get? name entries.reverse

theorem get?_append (name : String) (r s : List (String × β)) :
    get? name (r ++ s) = (get? name r).or (get? name s) := by
  induction r with
  | nil => simp [get?]
  | cons e rest ih => by_cases h : e.1 = name <;> simp [get?, h, ih]

@[simp] theorem last?_nil (name : String) : last? name ([] : List (String × β)) = none := rfl

/-- An entry counts only if no later one has its name. -/
theorem last?_cons (name : String) (e : String × β) (rest : List (String × β)) :
    last? name (e :: rest) = (last? name rest).or (if e.1 = name then some e.2 else none) := by
  rw [last?, List.reverse_cons, get?_append]
  rfl

theorem mem_of_get? {name : String} {value : β} {r : List (String × β)}
    (h : get? name r = some value) : (name, value) ∈ r := by
  induction r with
  | nil => simp [get?] at h
  | cons e rest ih =>
    obtain ⟨n, v⟩ := e
    by_cases hn : n = name
    · simp only [get?, hn, ↓reduceIte, Option.some.injEq] at h
      subst hn h
      exact List.mem_cons_self
    · simp only [get?, hn, ↓reduceIte] at h
      exact List.mem_cons_of_mem _ (ih h)

theorem mem_of_last? {name : String} {value : β} {entries : List (String × β)}
    (h : last? name entries = some value) : (name, value) ∈ entries :=
  List.mem_reverse.mp (mem_of_get? h)

theorem get?_eq_none_iff {name : String} {r : List (String × β)} :
    get? name r = none ↔ name ∉ names r := by
  induction r with
  | nil => simp [get?, names]
  | cons e rest ih =>
    rw [names] at ih
    by_cases h : e.1 = name
    · simp [get?, names, h]
    · simp [get?, names, h, ih, Ne.symm h]

theorem isSome_get? {name : String} {r : List (String × β)} :
    (get? name r).isSome = true ↔ name ∈ names r := by
  rw [Option.isSome_iff_ne_none, Ne, get?_eq_none_iff, Decidable.not_not]

theorem last?_eq_none_iff {name : String} {entries : List (String × β)} :
    last? name entries = none ↔ name ∉ names entries := by
  rw [last?, get?_eq_none_iff, names, names, List.map_reverse, List.mem_reverse]

theorem Distinct.tail {e : String × β} {rest : List (String × β)} (h : Distinct (e :: rest)) :
    e.1 ∉ names rest ∧ Distinct rest := List.nodup_cons.mp h

theorem get?_of_mem {name : String} {value : β} {r : List (String × β)} (hr : Distinct r)
    (h : (name, value) ∈ r) : get? name r = some value := by
  induction r with
  | nil => cases h
  | cons e rest ih =>
    obtain ⟨hnew, hrest⟩ := hr.tail
    rcases List.mem_cons.mp h with rfl | h
    · simp [get?]
    · have hne : e.1 ≠ name := by
        rintro rfl
        exact hnew (List.mem_map.mpr ⟨_, h, rfl⟩)
      rw [get?, if_neg hne]
      exact ih hrest h

/-- The entries of a record and what it stores are the same. -/
theorem get?_eq_some_iff {name : String} {value : β} {r : List (String × β)} (hr : Distinct r) :
    get? name r = some value ↔ (name, value) ∈ r := ⟨mem_of_get?, get?_of_mem hr⟩

theorem Distinct.perm {r s : List (String × β)} (hr : Distinct r) (h : r.Perm s) : Distinct s :=
  (h.map Prod.fst).nodup_iff.mp hr

/-- The order of a record does not matter to a look-up. -/
theorem get?_perm {r s : List (String × β)} (hr : Distinct r) (h : r.Perm s) (name : String) :
    get? name r = get? name s := by
  refine Option.ext fun value => ?_
  rw [get?_eq_some_iff hr, get?_eq_some_iff (hr.perm h), h.mem_iff]

/-- In a record the last entry of a name is the first one. -/
theorem last?_eq_get? {r : List (String × β)} (hr : Distinct r) (name : String) :
    last? name r = get? name r := by
  induction r with
  | nil => rfl
  | cons e rest ih =>
    obtain ⟨hnew, hrest⟩ := hr.tail
    rw [last?_cons, ih hrest, get?]
    by_cases h : e.1 = name
    · rw [get?_eq_none_iff.mpr (h ▸ hnew), if_pos h, Option.none_or]
    · rw [if_neg h, Option.or_none, if_neg h]

theorem put_of_not_mem {name : String} (value : β) {r : List (String × β)} (h : name ∉ names r) :
    put name value r = r ++ [(name, value)] := by
  induction r with
  | nil => rfl
  | cons e rest ih =>
    obtain ⟨hne, hrest⟩ : ¬name = e.1 ∧ name ∉ names rest := by simpa [names] using h
    rw [put, if_neg (Ne.symm hne), ih hrest, List.cons_append]

theorem foldl_put_of_distinct {r s : List (String × β)} (h : Distinct (r ++ s)) :
    s.foldl (fun r e => put e.1 e.2 r) r = r ++ s := by
  induction s generalizing r with
  | nil => rw [List.foldl_nil, List.append_nil]
  | cons e rest ih =>
    have hsplit : Distinct ((r ++ [e]) ++ rest) := by rwa [List.append_assoc]
    have hnew : e.1 ∉ names r := by
      unfold Distinct names at h
      rw [List.map_append] at h
      exact fun hmem => (List.nodup_append.mp h).2.2 _ hmem _ (by simp) rfl
    rw [List.foldl_cons, put_of_not_mem e.2 hnew, ih hsplit, List.append_assoc]
    rfl

/-- Entries that name nothing twice are a record already. -/
theorem ofEntries_eq_self {entries : List (String × β)} (h : Distinct entries) :
    ofEntries entries = entries := foldl_put_of_distinct h

/-- Entries written onto a record hide what it has under their names. -/
theorem get?_foldl_put (name : String) (entries r : List (String × β)) :
    get? name (entries.foldl (fun r e => put e.1 e.2 r) r) =
      (last? name entries).or (get? name r) := by
  induction entries generalizing r with
  | nil => simp
  | cons e rest ih =>
    rw [List.foldl_cons, ih, last?_cons, Option.or_assoc]
    by_cases h : e.1 = name
    · subst h
      simp [get?_put_self]
    · rw [get?_put_of_ne (Ne.symm h), if_neg h, Option.none_or]

/-- Collapsing keeps the last value of each name. -/
theorem get?_ofEntries (name : String) (entries : List (String × β)) :
    get? name (ofEntries entries) = last? name entries := by
  rw [ofEntries, get?_foldl_put]
  simp [get?]

theorem last?_ofEntries (name : String) (entries : List (String × β)) :
    last? name (ofEntries entries) = last? name entries := by
  rw [last?_eq_get? (distinct_ofEntries entries), get?_ofEntries]

theorem mem_of_mem_ofEntries {name : String} {value : β} {entries : List (String × β)}
    (h : (name, value) ∈ ofEntries entries) : (name, value) ∈ entries := by
  have hget := get?_of_mem (distinct_ofEntries entries) h
  rw [get?_ofEntries] at hget
  exact mem_of_last? hget

theorem put_map (f : β → γ) (name : String) (value : β) (r : List (String × β)) :
    put name (f value) (r.map fun e => (e.1, f e.2)) =
      (put name value r).map fun e => (e.1, f e.2) := by
  induction r with
  | nil => rfl
  | cons e rest ih =>
    by_cases h : e.1 = name
    · simp [put, h]
    · simp [put, h, ih]

/-- Values may be mapped before or after entries are collapsed. -/
theorem ofEntries_map (f : β → γ) (entries : List (String × β)) :
    ofEntries (entries.map fun e => (e.1, f e.2)) =
      (ofEntries entries).map fun e => (e.1, f e.2) := by
  have hfold (r : List (String × β)) :
      (entries.map fun e => (e.1, f e.2)).foldl (fun r e => put e.1 e.2 r)
          (r.map fun e => (e.1, f e.2)) =
        (entries.foldl (fun r e => put e.1 e.2 r) r).map fun e => (e.1, f e.2) := by
    induction entries generalizing r with
    | nil => rfl
    | cons e rest ih =>
      rw [List.map_cons, List.foldl_cons, List.foldl_cons, ← ih]
      dsimp only
      rw [put_map]
  exact hfold []

theorem get?_map (f : String → β → γ) (name : String) (r : List (String × β)) :
    get? name (r.map fun e => (e.1, f e.1 e.2)) = (get? name r).map (f name) := by
  induction r with
  | nil => rfl
  | cons e rest ih =>
    by_cases h : e.1 = name
    · subst h
      simp [get?]
    · simp [get?, h, ih]

theorem names_map (f : String → β → γ) (r : List (String × β)) :
    names (r.map fun e => (e.1, f e.1 e.2)) = names r := by
  rw [names, List.map_map]
  rfl

/-- Entries without a name are no entries. -/
theorem isEmpty_iff {r : List (String × β)} : r.isEmpty = true ↔ ∀ name, name ∉ names r := by
  rw [← List.eq_nil_iff_forall_not_mem, names, List.map_eq_nil_iff, List.isEmpty_iff]

theorem last?_map (f : β → γ) (name : String) (entries : List (String × β)) :
    last? name (entries.map fun e => (e.1, f e.2)) = (last? name entries).map f := by
  rw [last?, ← List.map_reverse, get?_map fun _ => f]
  rfl

end Columnar.Record
