import Columnar.Proofs.Schema.Reordering
import Columnar.Proofs.Table.Rows
import Columnar.Proofs.Value.Position

/-!
# Reading loses overflowing integers only

The rows that are read are all maps or all no maps, so each fits the row type that is inferred from
them: for every key there is a column with room for what stands under it, or the synthetic column
has room for the whole document. A null in a row therefore stands where the document has no value,
with one exception: an integer literal just below 64 bits is typed as a 64-bit integer, by the
double nearest to it, and is then no integer of 64 bits.
-/

namespace Columnar

open ColumnType (Within Place unifyAll)
open Scalar (classify Overflowing)
open Record (last?)

/-- The text is a value of the type, stands for none, or is an integer lost to an integer type. -/
def Kept (t : ColumnType) (text : String) : Prop :=
  Value.readable t text = true ∨ classify text = .null ∨ Overflowing text ∧ ∃ w, t = .integer w

theorem Kept.within {p : Place} {t u : ColumnType} {text : String} (hw : Within p t u)
    (h : Kept t text) : Kept u text := by
  rcases h with h | h | ⟨hover, w, rfl⟩
  · exact Or.inl (Value.readable_within hw h)
  · exact Or.inr (Or.inl h)
  obtain ⟨n, hn, -⟩ := hover.integer?
  cases hw with
  | string => exact Or.inl rfl
  | alike hagree =>
    obtain rfl := (ColumnType.agrees_plain rfl).mp hagree
    exact Or.inr (Or.inr ⟨hover, w, rfl⟩)
  | widen => exact Or.inr (Or.inr ⟨hover, _, rfl⟩)
  | double => exact Or.inl (Value.readable_double_of_integer? hn)

theorem Kept.classify (text : String) : Kept (classify text) text :=
  (Value.readable_classify text).imp_right fun h =>
    h.imp_right fun hover => ⟨hover, .w64, hover.classify⟩

theorem Kept.settle {t : ColumnType} {text : String} (h : Kept t text) : Kept t.settle text := by
  cases t with
  | null => exact Or.inl rfl
  | list | struct =>
    rcases h with h | h | ⟨-, w, h⟩
    · cases h
    · exact Or.inr (Or.inl h)
    · cases h
  | _ => exact h

/-! ## Columns with room for their values -/

namespace Schema

theorem fits_ofTree {node : Tree} (h : node.WellFormed) : Fits Kept (.ofTree node) (some node) :=
  .ofTree Kept Kept.within Kept.classify h

/-- What was folded into a type fits it, settled or not. -/
theorem fits_unifyAll {nodes : List Tree} {node : Tree} {t : ColumnType} (hmem : node ∈ nodes)
    (hnode : node.WellFormed) (ht : unifyAll (nodes.map (typeWith {})) = some t) :
    Fits Kept t.settle (some node) := by
  have hroom := (ColumnType.within_unifyAll (typesOf_distinct {} nodes) ht).mp (.refl .column t)
  have hnodeType : Within .column (.ofTree node) t := hroom _ (List.mem_map_of_mem hmem)
  exact ((fits_ofTree hnode).within Kept.within hnodeType).settle Kept.settle

/-- The synthetic column has room for each document, if all documents are maps or none is. -/
theorem fits_fallback {documents : List Tree} {row : Tree} (hrow : row ∈ documents)
    (hwf : row.WellFormed)
    (huniform : (∀ d ∈ documents, d.isMap = true) ∨ ∀ d ∈ documents, d.isMap = false) :
    Fits Kept ((seenIn {} documents).fallback.elim .string ColumnType.settle) (some row) := by
  rw [seenIn_fallback]
  rcases huniform with hall | hnone
  · -- Maps without any key: nothing was folded, and the column holds their text.
    have hnil : nonMaps documents = [] :=
      List.filter_eq_nil_iff.mpr fun d hd => by rw [hall d hd]; decide
    rw [hnil]
    exact .string
  · have hmem : row ∈ nonMaps documents :=
      List.mem_filter.mpr ⟨hrow, by rw [hnone row hrow]; rfl⟩
    have hne : (nonMaps documents).map (typeWith {}) ≠ [] :=
      List.ne_nil_of_mem (List.mem_map_of_mem hmem)
    obtain ⟨t, ht⟩ := ColumnType.unifyAll_of_ne_nil hne
    rw [ht]
    exact fits_unifyAll hmem hwf ht

/-- The columns have room for each map. -/
theorem fits_columns {documents : List Tree} {entries : List (String × Tree)}
    (hrow : Tree.map entries ∈ documents) (hwf : (Tree.map entries).WellFormed) :
    Fits Kept (.structOf ((seenIn {} documents).types.map fun e => (e.1, settled {} e.1 e.2)))
      (some (.map entries)) := by
  have hentries {name : String} {child : Tree} (h : (name, child) ∈ entries) :
      (name, child) ∈ entriesOf documents := List.mem_flatMap.mpr ⟨_, hrow, h⟩
  have hlast (name : String) :
      last? name (Record.ofEntries
        ((seenIn {} documents).types.map fun e => (e.1, settled {} e.1 e.2))) =
        (Record.get? name (seenIn {} documents).types).map ColumnType.settle := by
    rw [Record.last?_ofEntries, ← Record.last?_eq_get? (distinct_seenIn {} documents)]
    exact Record.last?_map ColumnType.settle name _
  refine .struct (fun name hname => ?_) (fun name t ht => ?_)
  · rw [hlast, Option.isSome_map, Record.isSome_get?, mem_names_seenIn]
    obtain ⟨e, he, rfl⟩ := List.mem_map.mp hname
    exact List.mem_map.mpr ⟨e, hentries he, rfl⟩
  · rw [hlast] at ht
    obtain ⟨s, hs, rfl⟩ := Option.map_eq_some_iff.mp ht
    rw [get?_seenIn {} rfl] at hs
    cases hchild : Record.get? name entries with
    | none => exact .absent
    | some child =>
      have hmem := Record.mem_of_get? hchild
      refine fits_unifyAll ?_ (hwf.child hmem) hs
      exact List.mem_filterMap.mpr ⟨_, hentries hmem, if_pos rfl⟩

/-- The node that a place in a row comes from; behind the synthetic column the document starts. -/
def source (s : Schema) (row : Tree) (steps : List Component) : Option Tree :=
  row.reach? (if s.wholeDocuments then steps.tail else steps)

/-- What is reached in a row of the synthetic column is that row or a part of the document. -/
theorem reach_row_ofValues {t : ColumnType} {row : Tree} (ht : t.Distinct)
    (hfits : Fits Kept t (some row)) :
    ∃ v, (ofValues t).row row = .ok v ∧ ∀ steps u, v.reach? steps = some u →
      (∃ fs es, u = .struct fs es) ∨
        ∃ s, u = Value.ofTree s ((ofValues t).source row steps) ∧
          Fits Kept s ((ofValues t).source row steps) := by
  refine ⟨_, rfl, fun steps u hu => ?_⟩
  cases steps with
  | nil => exact Or.inl ⟨_, _, (Option.some.inj hu).symm⟩
  | cons c rest =>
    rw [Value.reach?_cons] at hu
    obtain ⟨w, hw, hu⟩ := Option.bind_eq_some_iff.mp hu
    cases c with
    | index i => cases hw
    | key name =>
      change Record.get? name [(documentColumn, Value.ofTree t (some row))] = some w at hw
      obtain ⟨-, rfl⟩ : name = documentColumn ∧ w = Value.ofTree t (some row) := by
        simpa using Record.mem_of_get? hw
      exact Or.inr (hfits.reach ht hu)

/-- What is reached in a converted row is what the node at its source was read as. -/
theorem reach_row {batches : List (List Tree)} {row : Tree} (hrow : row ∈ batches.flatten)
    (hwf : row.WellFormed)
    (huniform : (∀ d ∈ batches.flatten, d.isMap = true) ∨ ∀ d ∈ batches.flatten, d.isMap = false) :
    ∃ v, (infer {} batches).result.row row = .ok v ∧ ∀ steps u, v.reach? steps = some u →
      (∃ fs es, u = .struct fs es) ∨
        ∃ t, u = Value.ofTree t ((infer {} batches).result.source row steps) ∧
          Fits Kept t ((infer {} batches).result.source row steps) := by
  have hschema : (infer {} batches).result = (seenIn {} batches.flatten).schema {} := by
    simp only [infer, inferFrom_eq, sample_uncapped]
  rw [hschema]
  by_cases hempty : (seenIn {} batches.flatten).types.isEmpty = true
  · rw [schema_of_isEmpty {} hempty]
    refine reach_row_ofValues ?_ (fits_fallback hrow hwf huniform)
    cases (seenIn {} batches.flatten).fallback with
    | none => trivial
    | some t => exact ColumnType.settle_distinct t
  · have hmap : row.isMap = true := by
      rcases huniform with hall | hnone
      · exact hall row hrow
      · rw [seenIn_types_of_no_map {} hnone] at hempty
        exact absurd rfl hempty
    rw [schema_of_not_isEmpty {} hempty]
    cases row with
    | null | scalar | sequence => cases hmap
    | map entries =>
      refine ⟨_, rfl, fun steps u hu => Or.inr ?_⟩
      refine (fits_columns hrow hwf).reach (ColumnType.Distinct.structOf fun name t ht => ?_) hu
      obtain ⟨e, -, heq⟩ := List.mem_map.mp ht
      cases heq
      exact ColumnType.settle_distinct e.2

end Schema

/-- The document has a value there. -/
def HoldsValue : Option Tree → Prop
  | none | some .null => False
  | some (.scalar text) => classify text ≠ .null
  | some (.sequence _) | some (.map _) => True

/-- A place read from a fitting node is null though there is a value exactly if the value overflows
and the place is typed as an integer. -/
theorem isNull_and_holdsValue_iff {t : ColumnType} {node : Option Tree} (h : Fits Kept t node) :
    (Value.ofTree t node).isNull = true ∧ HoldsValue node ↔
      ∃ text w, node = some (.scalar text) ∧ (Value.ofTree t node).type = .integer w ∧
        Overflowing text := by
  rw [Value.type_ofTree]
  constructor
  · rintro ⟨hnull, hholds⟩
    rcases h.of_isNull hnull with rfl | rfl | ⟨text, rfl, hkept⟩
    · exact hholds.elim
    · exact hholds.elim
    · rw [Value.isNull_ofTree_scalar, Bool.not_eq_true'] at hnull
      rcases hkept with hread | hnone | ⟨hover, w, hw⟩
      · rw [hread] at hnull
        cases hnull
      · exact absurd hnone hholds
      · exact ⟨text, w, rfl, hw, hover⟩
  · rintro ⟨text, w, rfl, rfl, hover⟩
    constructor
    · rw [Value.isNull_ofTree_scalar, Value.not_readable_of_overflowing hover]
      rfl
    · change classify text ≠ .null
      rw [hover.classify]
      exact ColumnType.noConfusion

/-- Every row is converted, and a place in it is null though the document has a value there exactly
if that value is an overflowing integer and the place is typed as an integer. In particular a text
is a null of its own type only if it overflows. -/
theorem reading_loses_overflowing_integers_only (expand : Bool) (inputs : List (List Tree))
    (hwf : ∀ documents ∈ inputs, ∀ d ∈ documents, d.WellFormed) :
    (∀ row ∈ (Table.selectRows expand inputs).flatten,
      let schema := (Schema.infer {} (Table.selectRows expand inputs)).result
      ∃ v, schema.row row = .ok v ∧
        ∀ steps u, v.reach? steps = some u →
          (u.isNull = true ∧ HoldsValue (schema.source row steps) ↔
            ∃ text w, schema.source row steps = some (.scalar text) ∧ u.type = .integer w ∧
              Overflowing text)) ∧
    (∀ text, classify text ≠ .null →
      (Value.ofTree (classify text) (some (.scalar text))).type = classify text ∧
      ((Value.ofTree (classify text) (some (.scalar text))).isNull = true ↔ Overflowing text)) := by
  refine ⟨fun row hrow => ?_, fun text htext => ⟨Value.type_ofTree _ _, ?_⟩⟩
  · have hselects : Table.Selects expand inputs _ := Table.selects_selectRows inputs
    obtain ⟨v, hv, hreach⟩ := Schema.reach_row hrow (hselects.wellFormed hwf row hrow)
      hselects.uniform
    refine ⟨v, hv, fun steps u hu => ?_⟩
    rcases hreach steps u hu with ⟨fs, es, rfl⟩ | ⟨t, rfl, hfits⟩
    · constructor
      · rintro ⟨hnull, -⟩
        cases hnull
      · rintro ⟨text, w, -, htype, -⟩
        cases htype
    · exact isNull_and_holdsValue_iff hfits
  · have hiff := isNull_and_holdsValue_iff (.scalar (Kept.classify text))
    constructor
    · intro hnull
      obtain ⟨text', w, htext', -, hover⟩ := hiff.mp ⟨hnull, htext⟩
      obtain rfl : text = text' := by simpa using htext'
      exact hover
    · intro hover
      have htype : (Value.ofTree (classify text) (some (.scalar text))).type = .integer .w64 := by
        rw [Value.type_ofTree, hover.classify]
      exact (hiff.mpr ⟨text, .w64, rfl, htype, hover⟩).1

/-- The integer next below 64 bits is lost: its column holds 64-bit integers, and it is a null. -/
theorem next_below_64_bits_is_lost :
    let row := Tree.map [("a", .scalar "-9223372036854775809")]
    let schema := (Schema.infer {} (Table.selectRows true [[row]])).result
    (∃ v u, schema.row row = .ok v ∧ v.reach? [.key "a"] = some u ∧ u.isNull = true ∧
      HoldsValue (schema.source row [.key "a"])) ∧
    (Value.ofTree (classify "-9223372036854775809")
      (some (.scalar "-9223372036854775809"))).isNull = true := by
  have hover : Overflowing "-9223372036854775809" := ⟨-9223372036854775809, by decide⟩
  have hvalue : classify "-9223372036854775809" ≠ .null := by
    rw [hover.classify]
    exact ColumnType.noConfusion
  intro row schema
  obtain ⟨hrows, htexts⟩ := reading_loses_overflowing_integers_only true [[row]]
    (by simp [row, Tree.WellFormed, Tree.EntriesWellFormed, Record.Distinct, Record.names])
  obtain ⟨v, hv, hplaces⟩ := hrows row
    (by simp [row, Table.selectRows, Table.mapRows, Table.rowsOf])
  have hrow : schema.row row =
      .ok (.struct [("a", .integer .w64)] [("a", .null (.integer .w64))]) := rfl
  obtain rfl := Except.ok.inj (hv.symm.trans hrow)
  have hnull := (hplaces [.key "a"] (.null (.integer .w64)) rfl).mpr
    ⟨"-9223372036854775809", .w64, rfl, rfl, hover⟩
  exact ⟨⟨_, _, hv, rfl, hnull⟩, (htexts _ hvalue).2.mpr hover⟩

end Columnar
