import Columnar.Proofs.Fallible
import Columnar.Proofs.Yaml.Grammar

/-!
# What a stream of documents may be refused for

A document is refused where it uses a collection as the key of a mapping, and the text of a stream
where it has one of the constructs that its lexemes are refused for. Main statement: the reading of
a stream is refused for no other reason.
-/

namespace Columnar.Yaml

/-! ## Graphs -/

namespace Graph

/-- The second node is the first one or stands below it, as an item or a value. -/
inductive Below (g : Graph) : Nat → Nat → Prop
  | self {id : Nat} : Below g id id
  | item {id child last : Nat} {items : List Nat} {mark : Mark} :
      g.node? id = some (.sequence items mark) → child ∈ items → Below g child last →
      Below g id last
  | value {id last : Nat} {entry : Nat × Nat} {entries : List (Nat × Nat)} {mark : Mark} :
      g.node? id = some (.mapping entries mark) → entry ∈ entries → Below g entry.2 last →
      Below g id last

def IsCollection (g : Graph) (id : Nat) : Prop :=
  (∃ items mark, g.node? id = some (.sequence items mark)) ∨
    ∃ entries mark, g.node? id = some (.mapping entries mark)

/-- Below a node there is a mapping with a collection as a key. -/
def HasCollectionKey (g : Graph) (root : Nat) : Prop :=
  ∃ id entries mark, g.Below root id ∧ g.node? id = some (.mapping entries mark) ∧
    ∃ entry ∈ entries, g.IsCollection entry.1

theorem HasCollectionKey.of_item {g : Graph} {id child : Nat} {items : List Nat} {mark : Mark}
    (hid : g.node? id = some (.sequence items mark)) (hchild : child ∈ items)
    (h : g.HasCollectionKey child) : g.HasCollectionKey id := by
  obtain ⟨last, entries, mark, hbelow, hlast⟩ := h
  exact ⟨last, entries, mark, .item hid hchild hbelow, hlast⟩

theorem HasCollectionKey.of_value {g : Graph} {id : Nat} {entry : Nat × Nat}
    {entries : List (Nat × Nat)} {mark : Mark} (hid : g.node? id = some (.mapping entries mark))
    (hentry : entry ∈ entries) (h : g.HasCollectionKey entry.2) : g.HasCollectionKey id := by
  obtain ⟨last, entries, mark, hbelow, hlast⟩ := h
  exact ⟨last, entries, mark, .value hid hentry hbelow, hlast⟩

theorem keyText_isCollection {g : Graph} {id : Nat} :
    g.keyText id = .error (.refused .collectionKey) ↔ g.IsCollection id := by
  unfold keyText IsCollection
  cases h : g.node? id with
  | none => simp
  | some n => cases n <;> simp

theorem keyText_error {g : Graph} {id : Nat} {f : Fault} (h : g.keyText id = .error f) :
    f = .refused .collectionKey ∧ g.IsCollection id := by
  have hf : f = .refused .collectionKey := by
    unfold keyText at h
    split at h <;> cases h
    rfl
  exact ⟨hf, keyText_isCollection.mp (hf ▸ h)⟩

/-- A refused tree has a collection as a key. -/
theorem unfoldFrom_refusal {g : Graph} {r : Refusal} (fuel : Nat) (active : List Nat) (id : Nat)
    (h : g.unfoldFrom fuel active id = .error (.refused r)) :
    r = .collectionKey ∧ g.HasCollectionKey id := by
  induction fuel generalizing active id with
  | zero =>
    unfold unfoldFrom at h
    split at h
    · cases h
    · cases h
    · split at h <;> cases h
    · split at h <;> cases h
  | succ fuel ih =>
    unfold unfoldFrom at h
    split at h
    · cases h
    · cases h
    · rename_i items mark hid
      split at h
      · cases h
      rcases bind_eq_error h with hitems | ⟨ts, -, h⟩
      · obtain ⟨child, hchild, hrefused⟩ := exists_of_mapM_error hitems
        obtain ⟨hr, hkey⟩ := ih _ _ hrefused
        exact ⟨hr, hkey.of_item hid hchild⟩
      · cases h
    · rename_i entries mark hid
      split at h
      · cases h
      rcases bind_eq_error h with hentries | ⟨ts, -, h⟩
      · obtain ⟨entry, hentry, hrefused⟩ := exists_of_mapM_error hentries
        rcases bind_eq_error hrefused with hkey | ⟨key, -, hvalue⟩
        · obtain ⟨hr, hcollection⟩ := keyText_error hkey
          cases hr
          exact ⟨rfl, id, entries, mark, .self, hid, entry, hentry, hcollection⟩
        · rcases bind_eq_error hvalue with hvalue | ⟨t, -, hpair⟩
          · obtain ⟨hr, hkey⟩ := ih _ _ hvalue
            exact ⟨hr, hkey.of_value hid hentry⟩
          · cases hpair
      · cases h

/-- No tree has a collection as a key. -/
theorem not_hasCollectionKey_of_unfoldFrom {g : Graph} {fuel : Nat} {active : List Nat} {id : Nat}
    {t : Tree} (h : g.unfoldFrom fuel active id = .ok t) : ¬g.HasCollectionKey id := by
  rintro ⟨last, entries, mark, hbelow, hlast, entry, hentry, hkey⟩
  induction hbelow generalizing fuel active t with
  | self =>
    unfold unfoldFrom at h
    simp only [hlast] at h
    split at h
    · cases h
    split at h
    · cases h
    obtain ⟨ts, hentries, -⟩ := bind_eq_ok h
    obtain ⟨b, hb⟩ := exists_of_mapM_ok hentries entry hentry
    obtain ⟨key, htext, -⟩ := bind_eq_ok hb
    rw [keyText_isCollection.mpr hkey] at htext
    cases htext
  | item hid hchild hbelow ih =>
    unfold unfoldFrom at h
    simp only [hid] at h
    split at h
    · cases h
    split at h
    · cases h
    obtain ⟨ts, hitems, -⟩ := bind_eq_ok h
    obtain ⟨b, hb⟩ := exists_of_mapM_ok hitems _ hchild
    exact ih hb hlast
  | value hid hvalue hbelow ih =>
    unfold unfoldFrom at h
    simp only [hid] at h
    split at h
    · cases h
    split at h
    · cases h
    obtain ⟨ts, hentries, -⟩ := bind_eq_ok h
    obtain ⟨b, hb⟩ := exists_of_mapM_ok hentries _ hvalue
    obtain ⟨key, -, hb⟩ := bind_eq_ok hb
    obtain ⟨t, ht, -⟩ := bind_eq_ok hb
    exact ih ht hlast

end Graph

/-! ## Documents -/

namespace Read

theorem directives_keepsFault (versionSeen : Bool) (handles : List (String × String))
    (fuel : Nat) : KeepsFault (directives versionSeen handles fuel) := by
  induction fuel generalizing versionSeen handles with
  | zero => exact .pure
  | succ fuel ih =>
    refine .bind peek_keepsFault fun t => ?_
    split
    · refine .bind advance_keepsFault fun _ => ?_
      split
      · refine .ite (.bind .marked fun _ => ?_) ?_
        · exact .ite (.bind .marked fun _ => ih ..) (ih ..)
        · exact .ite (.bind .marked fun _ => ih ..) (ih ..)
      · exact .ite (.bind .marked fun _ => ih ..) (ih ..)
      · exact ih ..
    · exact .pure

theorem depthBound_keepsFault : KeepsFault depthBound := .bind .get fun _ => .pure

theorem explicitDocument?_keepsFault : KeepsFault explicitDocument? := by
  have hroot (began : Mark) : KeepsFault (do
      advance
      let v ← peek
      let id ← if isBoundary v.lexeme then emptyNode v.mark else node .block (← depthBound)
      return some (Root.mk began id)) := by
    refine .bind advance_keepsFault fun _ => .bind peek_keepsFault fun v => ?_
    refine .ite (.bind (emptyNode_keepsFault _) fun _ => .pure) ?_
    exact .bind depthBound_keepsFault fun fuel =>
      .bind ((nodesKeepFault fuel).node .block) fun _ => .pure
  refine .bind (.modify fun _ => rfl) fun _ => .bind peek_keepsFault fun t => ?_
  refine .ite .pure (.bind depthBound_keepsFault fun fuel => ?_)
  refine .bind (directives_keepsFault ..) fun handles => .bind (.modify fun _ => rfl) fun _ => ?_
  refine .bind peek_keepsFault fun u => ?_
  exact .ite (.bind .marked fun _ => hroot _) (hroot _)

theorem document?_keepsFault (first : Bool) : KeepsFault (document? first) := by
  have hend (root : Option Root) : KeepsFault (do
      if root.isSome then
        let u ← peek
        if u.lexeme == .documentEnd then advance
      return root) := by
    refine .ite (.bind peek_keepsFault fun u => ?_) .pure
    exact .ite (.bind advance_keepsFault fun _ => .pure) .pure
  refine .bind peek_keepsFault fun t => ?_
  dsimp only
  split
  · exact .bind explicitDocument?_keepsFault hend
  · exact .bind explicitDocument?_keepsFault hend
  · exact .bind explicitDocument?_keepsFault hend
  · exact .bind explicitDocument?_keepsFault hend
  · refine .bind (.modify fun _ => rfl) fun _ => .bind depthBound_keepsFault fun fuel => ?_
    exact .bind ((nodesKeepFault fuel).node .block) fun id => .bind .pure hend

end Read

namespace Reading

/-- Reading documents from a state on comes to the document with this root and graph; `first`
tells whether a document may do without its marker. -/
inductive Meets : Reading → Bool → Read.Root → Graph → Prop
  | here {s t : Reading} {first : Bool} {root : Read.Root} :
      Read.document? first s = .ok (some root, t) → Meets s first root t.graph
  | later {s t : Reading} {first : Bool} {root last : Read.Root} {g : Graph} :
      Read.document? first s = .ok (some root, t) → Meets t false last g → Meets s first last g

/-- Reading from a state on is refused with reason: the tokens end there, or a document on the way
has a collection as a key. -/
def Refuses (s : Reading) (first : Bool) (r : Refusal) : Prop :=
  s.stream.fault = some (.refused r) ∨
    r = .collectionKey ∧ ∃ root g, s.Meets first root g ∧ g.HasCollectionKey root.id

theorem trees_refusal {r : Refusal} (fuel : Nat) (first : Bool) (s : Reading)
    (h : s.trees first fuel = .error (.refused r)) : s.Refuses first r := by
  induction fuel generalizing first s with
  | zero => cases h
  | succ fuel ih =>
    have hkeeps := Read.document?_keepsFault first
    unfold trees at h
    rcases bind_eq_error h with hdocument | ⟨⟨root?, t⟩, hdocument, h⟩
    · exact Or.inl (hkeeps.refusal s r hdocument)
    · cases root? with
      | none => cases h
      | some root =>
        have hfault : t.stream.fault = s.stream.fault := hkeeps.fault s _ t hdocument
        rcases bind_eq_error h with hunfold | ⟨tree, -, h⟩
        · obtain ⟨hr, hkey⟩ := Graph.unfoldFrom_refusal _ _ _ hunfold
          exact Or.inr ⟨hr, root, t.graph, .here hdocument, hkey⟩
        · rcases bind_eq_error h with hmore | ⟨trees, -, h⟩
          · rcases ih false t hmore with hend | ⟨hr, last, g, hmeets, hkey⟩
            · exact Or.inl (hfault ▸ hend)
            · exact Or.inr ⟨hr, last, g, .later hdocument hmeets, hkey⟩
          · cases h

theorem nextStart_refusal {s : Reading} {r : Refusal}
    (h : onlyTree.nextStart s = .error (.refused r)) : s.stream.fault = some (.refused r) := by
  have hpeek := Read.peek_keepsFault
  have hstart : Read.KeepsFault (do Read.skipDocumentEnds; Read.peek) :=
    .bind (.modify fun _ => rfl) fun _ => hpeek
  unfold onlyTree.nextStart at h
  rcases bind_eq_error h with hfirst | ⟨⟨t, s₁⟩, hfirst, h⟩
  · exact hstart.refusal s r hfirst
  have hfault₁ : s₁.stream.fault = s.stream.fault := hstart.fault s _ s₁ hfirst
  dsimp only at h
  split at h
  · cases h
  have hdirectives := Read.directives_keepsFault false [] (s₁.stream.tokens.length + 1)
  rcases bind_eq_error h with hread | ⟨⟨handles, s₂⟩, hread, h⟩
  · exact hfault₁ ▸ hdirectives.refusal s₁ r hread
  have hfault₂ : s₂.stream.fault = s₁.stream.fault := hdirectives.fault s₁ _ s₂ hread
  rcases bind_eq_error h with hmarker | ⟨⟨u, s₃⟩, -, h⟩
  · exact hfault₁ ▸ hfault₂ ▸ hpeek.refusal s₂ r hmarker
  dsimp only at h
  split at h <;> cases h

theorem onlyTree_refusal {s : Reading} {r : Refusal} (h : s.onlyTree = .error (.refused r)) :
    s.Refuses true r := by
  have hkeeps := Read.document?_keepsFault true
  unfold onlyTree at h
  rcases bind_eq_error h with hdocument | ⟨⟨root?, t⟩, hdocument, h⟩
  · exact Or.inl (hkeeps.refusal s r hdocument)
  · cases root? with
    | none => cases h
    | some root =>
      have hfault : t.stream.fault = s.stream.fault := hkeeps.fault s _ t hdocument
      rcases bind_eq_error h with hnext | ⟨place, -, h⟩
      · exact Or.inl (hfault ▸ nextStart_refusal hnext)
      · cases place with
        | some place => cases h
        | none =>
          rcases bind_eq_error h with hunfold | ⟨tree, -, h⟩
          · obtain ⟨hr, hkey⟩ := Graph.unfoldFrom_refusal _ _ _ hunfold
            exact Or.inr ⟨hr, root, t.graph, .here hdocument, hkey⟩
          · cases h

end Reading

end Columnar.Yaml
