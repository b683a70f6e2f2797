import Columnar.Path
import Columnar.Proofs.Number.Notation
import Columnar.Proofs.Record.Lookup
import Columnar.Proofs.Tree.WellFormed

/-!
# Addresses of nodes

The components that a text can write are the keys that are not empty and the indexes of at most
eighteen digits: no step of the reader puts down any other. Each list of them is written by the path
that has a backslash in front of every character of a key, whatever that character means elsewhere.
Main statement: these paths reach exactly the lists of such components, and following the path that
is written for the way to a node finds that node.
-/

namespace Columnar

open Text

/-- A path can name the component. -/
def Component.Addressable : Component → Prop
  | .key name => name ≠ ""
  | .index i => i.natAbs < Nat.pow 10 Path.indexDigitLimit

/-- The component as it is written in a path: a key with a backslash in front of each character, an
index in brackets. -/
def Component.written : Component → List Char
  | .key name => '.' :: name.toList.flatMap fun c => ['\\', c]
  | .index i => '[' :: (integerText i ++ [']'])

namespace Path

/-- The path that is written for components. -/
def written (components : List Component) : String :=
  String.ofList ('$' :: components.flatMap Component.written)

/-! ## What the reader puts down -/

theorem natAbs_lt_of_index? {raw : List Char} {i : Int} (h : index? raw = some i) :
    i.natAbs < Nat.pow 10 indexDigitLimit := by
  obtain ⟨n, hn, hi⟩ := Option.map_eq_some_iff.mp h
  by_cases hlong : indexDigitLimit < (Scalar.spanSign (trim raw)).2.length
  · rw [if_pos hlong] at hi
    rw [← hi]
    decide
  · rw [if_neg hlong] at hi
    obtain ⟨ds, hspan, -, hvalue⟩ := Scalar.integerLiteral?_eq_some_iff.mp hn
    have hds : number ds < Nat.pow 10 ds.length := by
      have hdigits : ds = (spanDigits (Scalar.spanSign (trim raw)).2).1 := by rw [hspan]
      rw [hdigits]
      exact number_spanDigits_lt _
    have hlength : ds.length ≤ indexDigitLimit := by
      have hle := length_spanDigits_le (Scalar.spanSign (trim raw)).2
      rw [hspan] at hle
      exact Nat.le_trans hle (Nat.not_lt.mp hlong)
    have habs : n.natAbs = number ds := by
      rw [hvalue, Scalar.signed]
      split
      · rw [Int.natAbs_neg, Int.natAbs_natCast]
      · exact Int.natAbs_natCast _
    rw [← hi, habs]
    exact Nat.lt_of_lt_of_le hds (Nat.pow_le_pow_right (by decide) hlength)

namespace Progress

variable {p q : Progress}

/-- Only components that a path can name were finished so far. -/
def Addressable (p : Progress) : Prop := ∀ c ∈ p.components, c.Addressable

theorem Addressable.finish (hp : p.Addressable) : ∀ c ∈ p.finish, c.Addressable := by
  unfold Progress.finish
  intro c hc
  split at hc
  · exact hp c hc
  · rename_i hcurrent
    rcases List.mem_append.mp hc with hc | hc
    · exact hp c hc
    · rw [List.mem_singleton.mp hc]
      show String.ofList p.current ≠ ""
      intro hempty
      apply hcurrent
      rw [List.isEmpty_iff, ← String.toList_ofList (l := p.current), hempty]
      rfl

/-- A character never finishes an empty key or an index with too many digits. -/
theorem Addressable.step (hp : p.Addressable) {c : Char} (h : p.step c = .ok q) :
    q.Addressable := by
  unfold Progress.step at h
  split at h
  · cases h
    exact hp
  · split at h
    · split at h
      · rename_i i hi
        cases h
        intro c hc
        rcases List.mem_append.mp hc with hc | hc
        · exact hp c hc
        · rw [List.mem_singleton.mp hc]
          exact natAbs_lt_of_index? hi
      · cases h
    · cases h
      exact hp
  · split at h
    · cases h
      exact hp
    split at h
    · cases h
      exact hp
    split at h
    · cases h
      exact hp
    · cases h
      exact hp.finish

theorem Addressable.run (hp : p.Addressable) {cs : List Char} (h : p.run cs = .ok q) :
    q.Addressable := by
  induction cs generalizing p with
  | nil =>
    cases h
    exact hp
  | cons c rest ih =>
    rw [Progress.run] at h
    split at h
    · rename_i next hstep
      exact ih (hp.step hstep) h
    · cases h

/-! ## Written components read back -/

theorem run_cons_of_step {c : Char} {rest : List Char} (h : p.step c = .ok q) :
    p.run (c :: rest) = q.run rest := by
  rw [run, h]

theorem run_append {cs rest : List Char} (h : p.run cs = .ok q) :
    p.run (cs ++ rest) = q.run rest := by
  induction cs generalizing p with
  | nil =>
    cases h
    rfl
  | cons c cs ih =>
    rw [run] at h
    split at h
    · rename_i next hstep
      rw [List.cons_append, run_cons_of_step hstep]
      exact ih h
    · cases h

/-- Behind a backslash every character belongs to the key. -/
theorem run_escaped (components : List Component) (current name : List Char) :
    run ⟨.key false, components, current⟩ (name.flatMap fun c => ['\\', c]) =
      .ok ⟨.key false, components, current ++ name⟩ := by
  induction name generalizing current with
  | nil =>
    rw [List.append_nil]
    rfl
  | cons c rest ih =>
    show run ⟨.key false, components, current ++ [c]⟩ (rest.flatMap fun c => ['\\', c]) = _
    rw [ih, List.append_assoc]
    rfl

/-- Inside brackets all characters are kept up to the closing one. -/
theorem run_index (components : List Component) (raw : List Char) {cs : List Char}
    (h : ']' ∉ cs) :
    run ⟨.index raw, components, []⟩ cs = .ok ⟨.index (raw ++ cs), components, []⟩ := by
  induction cs generalizing raw with
  | nil =>
    rw [List.append_nil]
    rfl
  | cons c rest ih =>
    obtain ⟨hc, hrest⟩ := not_or.mp (mt List.mem_cons.mpr h)
    have hstep : step ⟨.index raw, components, []⟩ c =
        .ok ⟨.index (raw ++ [c]), components, []⟩ := if_neg (Ne.symm hc)
    rw [run_cons_of_step hstep, ih _ hrest, List.append_assoc]
    rfl

end Progress

/-- An index that is written reads back. -/
theorem index?_integerText {i : Int} (h : i.natAbs < Nat.pow 10 indexDigitLimit) :
    index? (integerText i) = some i := by
  have htrim : trim (integerText i) = integerText i :=
    trim_eq_self fun c hc => isBlank_of_isNumeral (isNumeral_integerText i c hc)
  have hlength : (Scalar.spanSign (integerText i)).2.length ≤ indexDigitLimit := by
    rw [Scalar.spanSign_integerText]
    exact (Nat.length_toDigits_le_iff (by decide) (by decide)).mpr h
  unfold index?
  dsimp only
  rw [htrim, Scalar.integerLiteral?_integerText, Option.map_some, if_neg (Nat.not_lt.mpr hlength)]

namespace Progress

variable {p : Progress}

/-- A written component finishes what was read before it and is read itself. -/
theorem run_written (hp : p.mode = .key false) {c : Component} (hc : c.Addressable) :
    ∃ q, p.run c.written = .ok q ∧ q.mode = .key false ∧ q.finish = p.finish ++ [c] := by
  obtain ⟨mode, components, current⟩ := p
  obtain rfl : mode = .key false := hp
  generalize hdone : finish ⟨.key false, components, current⟩ = done
  cases c with
  | key name =>
    have hname : name ≠ "" := hc
    have hpoint : step ⟨.key false, components, current⟩ '.' = .ok ⟨.key false, done, []⟩ := by
      rw [← hdone]
      rfl
    refine ⟨⟨.key false, done, name.toList⟩, ?_, rfl, ?_⟩
    · rw [Component.written, run_cons_of_step hpoint, run_escaped, List.nil_append]
    · have hchars : name.toList.isEmpty = false := by
        simpa using hname
      rw [finish, hchars, String.ofList_toList]
      rfl
  | index i =>
    have hopen : step ⟨.key false, components, current⟩ '[' = .ok ⟨.index [], done, []⟩ := by
      rw [← hdone]
      rfl
    have hplain : ']' ∉ integerText i := by
      intro hmem
      exact absurd (isNumeral_integerText i _ hmem) (by decide)
    have hclose : step ⟨.index (integerText i), done, []⟩ ']' =
        .ok ⟨.key false, done ++ [.index i], []⟩ := by
      unfold step
      dsimp only
      rw [if_pos rfl, index?_integerText hc]
    refine ⟨⟨.key false, done ++ [.index i], []⟩, ?_, rfl, rfl⟩
    rw [Component.written, run_cons_of_step hopen, run_append (run_index done [] hplain),
      List.nil_append, run_cons_of_step hclose, run]

theorem run_flatMap_written (hp : p.mode = .key false) {components : List Component}
    (h : ∀ c ∈ components, c.Addressable) :
    ∃ q, p.run (components.flatMap Component.written) = .ok q ∧ q.mode = .key false ∧
      q.finish = p.finish ++ components := by
  induction components generalizing p with
  | nil => exact ⟨p, rfl, hp, (List.append_nil _).symm⟩
  | cons c rest ih =>
    obtain ⟨hc, hrest⟩ := List.forall_mem_cons.mp h
    obtain ⟨q, hrun, hmode, hfinish⟩ := run_written hp hc
    obtain ⟨last, hlast, hkey, hdone⟩ := ih hmode hrest
    refine ⟨last, ?_, hkey, ?_⟩
    · rw [List.flatMap_cons, run_append hrun, hlast]
    · rw [hdone, hfinish, List.append_assoc]
      rfl

end Progress

/-! ## Compiled paths -/

theorem compile_addressable {text : String} {p : Path} (h : compile text = .ok p) :
    ∀ c ∈ p.components, c.Addressable := by
  unfold compile at h
  split at h
  · rename_i rest _
    cases hrun : Progress.start.run rest with
    | error raw =>
      rw [hrun] at h
      cases h
    | ok q =>
      have hstart : Progress.start.Addressable := fun c hc => absurd hc List.not_mem_nil
      rw [hrun] at h
      dsimp only at h
      split at h
      · cases h
      · cases h
        exact (hstart.run hrun).finish
  · cases h

/-- The path that is written for components compiles to them. -/
theorem compile_written {components : List Component} (h : ∀ c ∈ components, c.Addressable) :
    compile (written components) = .ok ⟨written components, components⟩ := by
  have hstart : Progress.start.mode = .key false := rfl
  obtain ⟨q, hrun, hmode, hfinish⟩ := Progress.run_flatMap_written hstart h
  have hchars : (written components).toList = '$' :: components.flatMap Component.written :=
    String.toList_ofList
  unfold compile
  simp only [hchars, hrun, hmode, hfinish]
  rfl

/-! ## Descendants -/

/-- The components lead from a node down to a descendant: from a map through one of its entries,
from a sequence through one of its items. -/
inductive Leads : Tree → List Component → Tree → Prop
  | here (node : Tree) : Leads node [] node
  | entry {entries name child rest node} : (name, child) ∈ entries → Leads child rest node →
      Leads (.map entries) (.key name :: rest) node
  | item {items child rest node} {n : Nat} : items[n]? = some child → Leads child rest node →
      Leads (.sequence items) (.index n :: rest) node

/-- One step down finds what the components lead to. -/
theorem child?_eq_some_iff {node child : Tree} (h : node.WellFormed) (c : Component) :
    Component.child? node c = some child ↔ Leads node [c] child := by
  cases c with
  | key name =>
    constructor
    · intro hchild
      cases node with
      | map entries => exact .entry (Record.mem_of_get? hchild) (.here child)
      | null | scalar | sequence => cases hchild
    · intro hleads
      cases hleads with
      | entry hmem hrest =>
        cases hrest
        exact Record.get?_of_mem h.keys hmem
  | index i =>
    constructor
    · intro hchild
      obtain ⟨hi, hitem⟩ := Option.ite_none_left_eq_some.mp hchild
      obtain ⟨n, rfl⟩ := Int.eq_ofNat_of_zero_le (Int.not_lt.mp hi)
      cases node with
      | sequence items => exact .item hitem (.here child)
      | null | scalar | map => cases hitem
    · intro hleads
      cases hleads with
      | @item items _ _ _ n hitem hrest =>
        cases hrest
        show (if (n : Int) < 0 then none else items[(n : Int).toNat]?) = some child
        rw [if_neg (by omega)]
        exact hitem

theorem wellFormed_of_leads {root node : Tree} {components : List Component}
    (h : Leads root components node) (hroot : root.WellFormed) : node.WellFormed := by
  induction h with
  | here => exact hroot
  | entry hmem _ ih => exact ih (hroot.child hmem)
  | item hitem _ ih => exact ih (hroot.item (List.mem_of_getElem? hitem))

theorem leads_cons_iff {root node : Tree} {c : Component} {rest : List Component} :
    Leads root (c :: rest) node ↔ ∃ child, Leads root [c] child ∧ Leads child rest node := by
  constructor
  · intro h
    cases h with
    | entry hmem hrest => exact ⟨_, .entry hmem (.here _), hrest⟩
    | item hitem hrest => exact ⟨_, .item hitem (.here _), hrest⟩
  · rintro ⟨child, hstep, hrest⟩
    cases hstep with
    | entry hmem hself =>
      cases hself
      exact .entry hmem hrest
    | item hitem hself =>
      cases hself
      exact .item hitem hrest

/-- A path finds exactly the descendants that its components lead to. -/
theorem follow_eq_some_iff (p : Path) {root node : Tree} (hroot : root.WellFormed) :
    p.follow root = some node ↔ Leads root p.components node := by
  unfold follow
  generalize p.components = components
  induction components generalizing root with
  | nil =>
    constructor
    · intro h
      cases h
      exact .here _
    · intro h
      cases h
      rfl
  | cons c rest ih =>
    have hbelow {child : Tree} (h : Leads root [c] child) :=
      ih (wellFormed_of_leads h hroot)
    rw [List.foldlM_cons, leads_cons_iff]
    constructor
    · intro h
      obtain ⟨child, hchild, hrest⟩ := Option.bind_eq_some_iff.mp h
      have hstep := (child?_eq_some_iff hroot c).mp hchild
      exact ⟨child, hstep, (hbelow hstep).mp hrest⟩
    · rintro ⟨child, hstep, hrest⟩
      have hchild := (child?_eq_some_iff hroot c).mpr hstep
      exact Option.bind_eq_some_iff.mpr ⟨child, hchild, (hbelow hstep).mpr hrest⟩

/-- **Paths reach exactly the addressable components.** A list of components is what some text
compiles to if and only if its keys are not empty and its indexes have at most eighteen digits. The
path that is written for such a list compiles to it, and in a document whose maps name nothing twice
it finds the node that the components lead to, and no other. -/
theorem addressable_components_are_reached (components : List Component) :
    ((∃ text p, compile text = .ok p ∧ p.components = components) ↔
      ∀ c ∈ components, c.Addressable) ∧
    ((∀ c ∈ components, c.Addressable) →
      ∃ p, compile (written components) = .ok p ∧ p.components = components ∧
        ∀ root node, root.WellFormed → (p.follow root = some node ↔ Leads root components node)) := by
  refine ⟨⟨?_, ?_⟩, ?_⟩
  · rintro ⟨text, p, hcompile, rfl⟩
    exact compile_addressable hcompile
  · intro h
    exact ⟨_, _, compile_written h, rfl⟩
  · intro h
    exact ⟨_, compile_written h, rfl, fun root node hroot => follow_eq_some_iff _ hroot⟩

/-- A key that reads like the end of a path is a single component of its address. -/
theorem address_with_bracket_in_key_is_reached :
    (∀ c ∈ [Component.key "a.]", .index 0], c.Addressable) ∧
      (Tree.map [("a.]", .sequence [.scalar "1"])]).WellFormed ∧
      written [.key "a.]", .index 0] = "$.\\a\\.\\][0]" ∧
      ∃ p, compile (written [.key "a.]", .index 0]) = .ok p ∧
        p.components = [.key "a.]", .index 0] ∧
        p.follow (.map [("a.]", .sequence [.scalar "1"])]) = some (.scalar "1") := by
  have hcomponents : ∀ c ∈ [Component.key "a.]", .index 0], c.Addressable := by
    simp [Component.Addressable, indexDigitLimit]
  have hroot : (Tree.map [("a.]", .sequence [.scalar "1"])]).WellFormed := by
    simp [Tree.WellFormed, Tree.EntriesWellFormed, Tree.AllWellFormed, Record.Distinct,
      Record.names]
  obtain ⟨p, hcompile, hp, hfollow⟩ :=
    (addressable_components_are_reached [.key "a.]", .index 0]).2 hcomponents
  have hleads : Leads (.map [("a.]", .sequence [.scalar "1"])]) [.key "a.]", .index (0 : Nat)]
      (.scalar "1") :=
    .entry List.mem_cons_self (.item rfl (.here _))
  exact ⟨hcomponents, hroot, by decide, p, hcompile, hp, (hfollow _ _ hroot).mpr hleads⟩

end Path

end Columnar
