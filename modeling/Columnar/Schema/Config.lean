import Columnar.ColumnType
import Columnar.Datum

/-!
# The parameters of inference

How many rows and batches are looked at, whether types are detected at all, and which columns have
a declared type. Caps are positive, and a column is declared once.
-/

namespace Columnar.Schema

/-- The parameters of inference; an absent cap is no cap. -/
structure Config where
  rowCap : Option Nat := none
  batchCap : Option Nat := none
  detectTypes : Bool := true
  declared : Record ColumnType := []
  rowCap_pos : rowCap ≠ some 0 := by simp
  batchCap_pos : batchCap ≠ some 0 := by simp
  declared_distinct : Record.Distinct declared := by decide

/-- Why parameters are refused. -/
inductive ConfigError
  /-- The cap on rows is not positive. -/
  | rowCap (given : Int)
  /-- The cap on batches is not positive. -/
  | batchCap (given : Int)
  /-- A column is declared with something that is no type. -/
  | declaration (name : String) (given : Datum)

def ConfigError.message : ConfigError → String
  | .rowCap given =>
    "sample_size must be a positive integer or None, got " ++ String.ofList (integerText given)
  | .batchCap given =>
    "maximum_sample_files must be a positive integer or None, got "
      ++ String.ofList (integerText given)
  | .declaration name given =>
    "column_types[" ++ Text.quoted name ++ "] must be an InferredType, got " ++ given.display

/-- A cap, if it is positive. -/
def cap? : Option Int → Option { n : Option Nat // n ≠ some 0 }
  | none => some ⟨none, by simp⟩
  | some n => if h : 1 ≤ n then some ⟨some n.toNat, by simp; omega⟩ else none

/-- The declared types, up to the first that is none. -/
def declarations :
    List (String × (Datum ⊕ ColumnType)) → Except ConfigError (List (String × ColumnType))
  | [] => .ok []
  | (name, .inl given) :: _ => .error (.declaration name given)
  | (name, .inr type) :: rest => (declarations rest).map ((name, type) :: ·)

/-- The parameters with these caps and declarations, or the first fault: the caps are checked
before the declarations, and of declarations for one column the last counts. -/
def Config.ofParts (rowCap batchCap : Option Int) (detectTypes : Bool)
    (declared : List (String × (Datum ⊕ ColumnType))) : Except ConfigError Config :=
  match cap? rowCap, cap? batchCap with
  | none, _ => .error (.rowCap (rowCap.getD 0))
  | _, none => .error (.batchCap (batchCap.getD 0))
  | some rows, some batches =>
    (declarations (Record.ofEntries declared)).map fun types =>
      { rowCap := rows.1
        batchCap := batches.1
        detectTypes
        declared := Record.ofEntries types
        rowCap_pos := rows.2
        batchCap_pos := batches.2
        declared_distinct := Record.distinct_ofEntries types }

end Columnar.Schema
