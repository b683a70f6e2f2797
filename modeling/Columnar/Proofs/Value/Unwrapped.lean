import Columnar.Proofs.Record.Order
import Columnar.Value

/-!
# Values without their types

A record holds plain values: each is what the typed value holds, down to the items of lists and the
entries of structs, and nothing of the type is left. This is said here by the kinds of value alone.
The entries of a struct that name something twice are collapsed, as in every record.
-/

namespace Columnar.Value

mutual

/-- The plain value holds what the value holds, and a null if that is a null. -/
inductive Unwraps : Value → Plain → Prop
  | null (t : ColumnType) : Unwraps (.null t) .null
  | boolean (b : Bool) : Unwraps (.boolean b) (.boolean b)
  | integer (w : Width) (n : Int) : Unwraps (.integer w n) (.integer n)
  | double (d : Double) : Unwraps (.double d) (.double d)
  | date (d : Date) : Unwraps (.date d) (.date d)
  | time (t : TimeOfDay) : Unwraps (.time t) (.time t)
  | timestamp (t : Timestamp) : Unwraps (.timestamp t) (.timestamp t)
  | string (s : String) : Unwraps (.string s) (.text s)
  | any (json : String) : Unwraps (.any json) (.text json)
  | list {t items plains} : ItemsUnwrap items plains → Unwraps (.list t items) (.list plains)
  | struct {fs entries named record} : EntriesUnwrap entries named →
      Record.Collapses named record → Unwraps (.struct fs entries) (.record record)

/-- One plain value for each item, in order. -/
inductive ItemsUnwrap : List Value → List Plain → Prop
  | nil : ItemsUnwrap [] []
  | cons {v p items plains} : Unwraps v p → ItemsUnwrap items plains →
      ItemsUnwrap (v :: items) (p :: plains)

/-- One plain value for each entry, in order and under its name. -/
inductive EntriesUnwrap : List (String × Value) → List (String × Plain) → Prop
  | nil : EntriesUnwrap [] []
  | cons {name v p entries named} : Unwraps v p → EntriesUnwrap entries named →
      EntriesUnwrap ((name, v) :: entries) ((name, p) :: named)

end

mutual

theorem unwraps_plain : ∀ v : Value, Unwraps v v.plain
  | .null t => .null t
  | .boolean b => .boolean b
  | .integer w n => .integer w n
  | .double d => .double d
  | .date d => .date d
  | .time t => .time t
  | .timestamp t => .timestamp t
  | .string s => .string s
  | .any json => .any json
  | .list _ items => .list (itemsUnwrap_plainItems items)
  | .struct _ entries =>
    .struct (entriesUnwrap_plainEntries entries) (Record.collapses_ofEntries (plainEntries entries))

theorem itemsUnwrap_plainItems : ∀ items : List Value, ItemsUnwrap items (plainItems items)
  | [] => .nil
  | v :: rest => .cons (unwraps_plain v) (itemsUnwrap_plainItems rest)

theorem entriesUnwrap_plainEntries :
    ∀ entries : List (String × Value), EntriesUnwrap entries (plainEntries entries)
  | [] => .nil
  | (_, v) :: rest => .cons (unwraps_plain v) (entriesUnwrap_plainEntries rest)

end

theorem EntriesUnwrap.names_eq {entries : List (String × Value)} {named : List (String × Plain)}
    (h : EntriesUnwrap entries named) : Record.names named = Record.names entries := by
  induction entries generalizing named with
  | nil =>
    cases h
    rfl
  | cons e rest ih =>
    cases h with
    | cons _ hrest => exact congrArg (_ :: ·) (ih hrest)

end Columnar.Value
