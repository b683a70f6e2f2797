import Columnar.Proofs.Fallible
import Columnar.Proofs.Record.Lookup
import Columnar.Proofs.Record.Order
import Columnar.Proofs.Table.Rows
import Columnar.Proofs.Value.Unwrapped

/-!
# Tables are uniform and complete

A schema of columns, or of whole documents, gives every row the same shape: a struct of the row
type with one entry for each of its fields, in order, or a null of the row type. Main statement:
a table has one row for each selected node, in order, all of the row type, and one record for each
row, which has the names of the row type and holds what the row has in its fields.
-/

namespace Columnar

/-! ## Converted rows -/

namespace Schema

/-- The schemas that are inferred or made from columns, or from the type of whole documents. -/
inductive Built : Schema → Prop
  | fields (fs : List (String × ColumnType)) : Built (.ofFields fs)
  | values (t : ColumnType) : Built (.ofValues t)

theorem built_inferFrom (config : Config) (batches : List (List Tree)) :
    (inferFrom config batches).Built := by
  unfold inferFrom Columns.schema
  split
  · exact .values _
  · exact .fields _

/-- What a row has of its node. Under columns a map gives one value for each field of the row type,
in order, read from what stands under its name, and any other node gives a null. Under a schema of
whole documents the node itself is read as the one value. -/
inductive Row (s : Schema) : Tree → Value → Prop
  | columns {entries} : s.wholeDocuments = false →
      Row s (.map entries) (.struct s.rowType.fields
        (s.rowType.fields.map fun f => (f.1, Value.ofTree f.2 (Record.get? f.1 entries))))
  | noMap {node} : s.wholeDocuments = false → (∀ entries, node ≠ .map entries) →
      Row s node (.null s.rowType)
  | document {t node} : s = .ofValues t →
      Row s node (.struct s.rowType.fields [(documentColumn, Value.ofTree t (some node))])

/-- Every node is converted to a row. -/
theorem row_of_built {s : Schema} (hs : s.Built) {node : Tree} {v : Value}
    (h : s.row node = .ok v) : s.Row node v := by
  cases hs with
  | values t =>
    obtain rfl := Except.ok.inj h
    exact .document rfl
  | fields fs =>
    obtain rfl := Except.ok.inj h
    cases node with
    | null | scalar | sequence => exact .noMap rfl nofun
    | map entries =>
      have hvalues := Value.ofFields_eq (ofFields fs).rowType.fields entries
      have hrow : Value.ofTree (ofFields fs).rowType (some (.map entries)) =
          .struct (ofFields fs).rowType.fields
            (Value.ofFields (ofFields fs).rowType.fields entries) := rfl
      rw [hrow, hvalues]
      exact .columns rfl

theorem distinct_rowType (s : Schema) : Record.Distinct s.rowType.fields :=
  Record.distinct_ofEntries s.fields

namespace Row

variable {s : Schema} {node : Tree} {row : Value}

theorem type_eq (h : s.Row node row) : row.type = s.rowType := by
  cases h <;> rfl

/-- A row is a null, or a struct with an entry for each field of the row type, in order. -/
theorem shape (h : s.Row node row) : row = .null s.rowType ∨
    ∃ values, row = .struct s.rowType.fields values ∧
      Record.names values = s.rowType.fieldNames := by
  cases h with
  | @columns entries _ =>
    refine Or.inr ⟨_, rfl, ?_⟩
    exact Record.names_map (fun name t => Value.ofTree t (Record.get? name entries)) _
  | noMap => exact Or.inl rfl
  | document hs =>
    subst hs
    exact Or.inr ⟨_, rfl, rfl⟩

end Row

end Schema

/-! ## Records -/

namespace Table

/-- What a record holds of a row: entries under the names of the row type, in order, with what the
row has there, each without its type. All are null if the row is. -/
inductive Records (s : Schema) : Value → Plain → Prop
  | null {t entries} : Record.names entries = s.rowType.fieldNames →
      (∀ e ∈ entries, e.2 = .null) → Records s (.null t) (.record entries)
  | struct {fs values entries} : Record.names entries = s.rowType.fieldNames →
      Value.EntriesUnwrap values entries → Records s (.struct fs values) (.record entries)

/-- The names of a schema, collapsed, are those of its row type. -/
theorem names_nulls (s : Schema) :
    Record.names (Record.ofEntries (s.names.map fun name => (name, Plain.null))) =
      s.rowType.fieldNames := by
  have hnames : Record.names (s.names.map fun name => (name, Plain.null)) = s.names := by
    rw [Record.names, List.map_map]
    exact List.map_id _
  rw [Record.names_ofEntries, hnames]
  exact (Record.names_ofEntries s.fields).symm

theorem eq_null_of_mem_nulls {s : Schema} {e : String × Plain}
    (h : e ∈ Record.ofEntries (s.names.map fun name => (name, Plain.null))) : e.2 = .null := by
  obtain ⟨name, -, heq⟩ := List.mem_map.mp (Record.mem_of_mem_ofEntries h)
  exact (congrArg Prod.snd heq).symm

theorem records_struct {s : Schema} {values : List (String × Value)}
    (h : Record.names values = s.rowType.fieldNames) :
    Records s (.struct s.rowType.fields values)
      (record s (.struct s.rowType.fields values)) := by
  have hunwrap := Value.entriesUnwrap_plainEntries values
  have hnames := hunwrap.names_eq.trans h
  have hdistinct : Record.Distinct (Value.plainEntries values) := by
    unfold Record.Distinct
    rw [hnames]
    exact s.distinct_rowType
  have hplain : (Value.struct s.rowType.fields values).plain =
      .record (Value.plainEntries values) := by
    rw [Value.plain, Record.ofEntries_eq_self hdistinct]
  unfold record
  rw [hplain]
  cases values with
  | nil =>
    -- A struct of no fields is taken for a null, whose record has no entries either.
    have hnone := names_nulls s
    rw [← h] at hnone
    rw [List.map_eq_nil_iff.mp hnone]
    exact .struct hnames .nil
  | cons => exact .struct hnames hunwrap

theorem records_record {s : Schema} {node : Tree} {row : Value} (h : s.Row node row) :
    Records s row (record s row) := by
  rcases h.shape with rfl | ⟨values, rfl, hnames⟩
  · exact .null (names_nulls s) fun e he => eq_null_of_mem_nulls he
  · exact records_struct hnames

/-! ## Reading -/

theorem parseAll_cons (mode : Document.Mode) (input : Document.Input)
    (rest : List Document.Input) :
    (parseAll mode (input :: rest)).result = match (Document.parse mode input).result with
      | .error e => .error e
      | .ok ds => (parseAll mode rest).result.map (ds :: ·) := by
  rw [parseAll]
  cases hinput : Document.parse mode input with
  | mk result notices => cases result <;> rfl

theorem forall₂_of_parseAll {mode : Document.Mode} {inputs : List Document.Input}
    {documents : List (List Tree)} (h : (parseAll mode inputs).result = .ok documents) :
    List.Forall₂ (fun input ds => (Document.parse mode input).result = .ok ds) inputs
      documents := by
  induction inputs generalizing documents with
  | nil =>
    obtain rfl := Except.ok.inj h
    exact .nil
  | cons input rest ih =>
    rw [parseAll_cons] at h
    cases hinput : (Document.parse mode input).result with
    | error e =>
      rw [hinput] at h
      cases h
    | ok ds =>
      cases hrest : (parseAll mode rest).result with
      | error e =>
        rw [hinput, hrest] at h
        cases h
      | ok more =>
        rw [hinput, hrest] at h
        obtain rfl := Except.ok.inj h
        exact .cons hinput (ih hrest)

theorem result_convert (schema : Schema) (batches documents : List (List Tree)) :
    (show Noted _ from do
      match batches.flatten.mapM schema.row with
      | .error e => return Except.error e
      | .ok rows =>
        Noted.note (.read rows.length documents.flatten.length documents.length)
        return Except.ok (Table.mk schema rows documents.flatten.length)).result =
      (batches.flatten.mapM schema.row).map
        fun rows => ⟨schema, rows, documents.flatten.length⟩ := by
  cases batches.flatten.mapM schema.row <;> rfl

theorem result_ofDocuments (options : Options) (given : Option Schema)
    (documents : List (List Tree)) :
    let batches := selectRows options.expandSequences documents
    let schema := given.getD (Schema.inferFrom options.inference batches)
    (ofDocuments options given documents).result =
      (batches.flatten.mapM schema.row).map
        fun rows => ⟨schema, rows, documents.flatten.length⟩ := by
  unfold ofDocuments
  cases given with
  | none => exact result_convert _ _ documents
  | some schema => exact result_convert schema _ documents

theorem result_read (options : Options) (given : Option Schema) (inputs : List Document.Input) :
    (read options given inputs).result = match (parseAll options.mode inputs).result with
      | .error e => .error (.parse e)
      | .ok documents => (ofDocuments options given documents).result.mapError .noColumn := by
  unfold read
  cases parseAll options.mode inputs with
  | mk result notices => cases result <;> rfl

theorem read_cases {options : Options} {given : Option Schema} {inputs : List Document.Input}
    {table : Table} (h : (read options given inputs).result = .ok table) :
    ∃ documents, (parseAll options.mode inputs).result = .ok documents ∧
      (ofDocuments options given documents).result = .ok table := by
  rw [result_read] at h
  cases hparse : (parseAll options.mode inputs).result with
  | error e =>
    rw [hparse] at h
    cases h
  | ok documents =>
    rw [hparse] at h
    dsimp only at h
    refine ⟨documents, rfl, ?_⟩
    cases htable : (ofDocuments options given documents).result with
    | error e =>
      rw [htable] at h
      cases h
    | ok t =>
      rw [htable] at h
      obtain rfl := Except.ok.inj h
      rfl

/-- **Tables are uniform and complete.** Read with an inferred schema, or one made from columns or
from the type of whole documents, inputs give one row for each selected node, in order, which is
that node converted. Every row is of the row type, and every record has the names of the row type,
in order, with what the row has in its fields, all nulls if the row is null. -/
theorem reading_is_uniform_and_complete (options : Options) {given : Option Schema}
    (hgiven : ∀ s ∈ given, s.Built) {inputs : List Document.Input} {table : Table}
    (h : (read options given inputs).result = .ok table) :
    ∃ documents batches : List (List Tree),
      List.Forall₂ (fun input ds => (Document.parse options.mode input).result = .ok ds)
        inputs documents ∧
      Selects options.expandSequences documents batches ∧
      table.schema = given.getD (Schema.inferFrom options.inference batches) ∧
      List.Forall₂ (fun node row => table.schema.row node = .ok row ∧ table.schema.Row node row)
        batches.flatten table.rows ∧
      (∀ row ∈ table.rows, row.type = table.schema.rowType) ∧
      List.Forall₂ (Records table.schema) table.rows table.records := by
  obtain ⟨documents, hparse, htable⟩ := read_cases h
  rw [result_ofDocuments] at htable
  have hselects : Selects options.expandSequences documents _ := selects_selectRows documents
  generalize selectRows options.expandSequences documents = batches at htable hselects
  have hbuilt : (given.getD (Schema.inferFrom options.inference batches)).Built := by
    cases given with
    | none => exact Schema.built_inferFrom _ _
    | some s => exact hgiven s rfl
  generalize hschema : given.getD (Schema.inferFrom options.inference batches) = schema
    at htable hbuilt
  cases hrows : batches.flatten.mapM schema.row with
  | error e =>
    rw [hrows] at htable
    cases htable
  | ok rows =>
    rw [hrows] at htable
    obtain rfl := Except.ok.inj htable
    have hconverted : List.Forall₂ (fun node row => schema.row node = .ok row ∧
        schema.Row node row) batches.flatten rows :=
      (forall₂_of_mapM hrows).imp fun _ _ hrow => ⟨hrow, Schema.row_of_built hbuilt hrow⟩
    have hshape : ∀ row ∈ rows, ∃ node, schema.Row node row := by
      intro row hrow
      obtain ⟨node, hnode⟩ := exists_of_mem_mapM hrows row hrow
      exact ⟨node, Schema.row_of_built hbuilt hnode⟩
    refine ⟨documents, batches, forall₂_of_parseAll hparse, hselects, hschema.symm, hconverted,
      ?_, ?_⟩
    · intro row hrow
      obtain ⟨node, hnode⟩ := hshape row hrow
      exact hnode.type_eq
    · change List.Forall₂ (Records schema) rows (rows.map (record schema))
      rw [List.forall₂_map_right_iff, List.forall₂_same]
      intro row hrow
      obtain ⟨node, hnode⟩ := hshape row hrow
      exact records_record hnode

/-- Two maps in a sequence, a document without maps, and a map, read with a schema that names a
column twice: there is a row for each map, of two fields, and a record with the two names. -/
theorem reading_is_uniform_for_repeated_column :
    let schema := Schema.ofFields [("a", .integer .w8), ("b", .string), ("a", .boolean)]
    let inputs : List Document.Input :=
      [.text "- a: 1\n- x\n- a: true\n", .text "7\n", .text "b: y\n"]
    let fields := [("a", .boolean), ("b", .string)]
    ∃ table documents batches, (read {} (some schema) inputs).result = .ok table ∧
      table.rows = [.struct fields [("a", .null .boolean), ("b", .null .string)],
        .struct fields [("a", .boolean true), ("b", .null .string)],
        .struct fields [("a", .null .boolean), ("b", .string "y")]] ∧
      table.records = [.record [("a", .null), ("b", .null)],
        .record [("a", .boolean true), ("b", .null)], .record [("a", .null), ("b", .text "y")]] ∧
      Selects true documents batches ∧
      List.Forall₂ (fun node row => schema.row node = .ok row ∧ schema.Row node row)
        batches.flatten table.rows ∧
      (∀ row ∈ table.rows, row.type = .struct fields) ∧
      List.Forall₂ (Records schema) table.rows table.records := by
  intro schema inputs fields
  let documents : List (List Tree) :=
    [[.sequence [.map [("a", .scalar "1")], .scalar "x", .map [("a", .scalar "true")]]],
      [.scalar "7"], [.map [("b", .scalar "y")]]]
  have hparse : (parseAll {} inputs).result = .ok documents := by
    have hparsed : (parseAll {} inputs).result.toOption = some documents := by decide +kernel
    cases hresult : (parseAll {} inputs).result with
    | error e =>
      rw [hresult] at hparsed
      cases hparsed
    | ok ds =>
      rw [hresult] at hparsed
      exact congrArg Except.ok (Option.some.inj hparsed)
  have hread : (read {} (some schema) inputs).result =
      .ok ⟨schema, [.struct fields [("a", .null .boolean), ("b", .null .string)],
        .struct fields [("a", .boolean true), ("b", .null .string)],
        .struct fields [("a", .null .boolean), ("b", .string "y")]], 3⟩ := by
    rw [result_read, hparse]
    rfl
  have hbuilt : ∀ s ∈ some schema, s.Built := by
    rintro _ ⟨⟩
    exact .fields _
  obtain ⟨ds, batches, -, hselects, -, hrows, htypes, hrecords⟩ :=
    reading_is_uniform_and_complete {} hbuilt hread
  exact ⟨_, ds, batches, hread, rfl, rfl, hselects, hrows, htypes, hrecords⟩

end Table

end Columnar
