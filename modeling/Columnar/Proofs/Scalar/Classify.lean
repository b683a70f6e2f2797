import Columnar.Scalar.Classify

/-!
# Why a text has its type

`Classified cs t` records what was read when the trimmed text `cs` was given the type `t`: the
reader that accepted it and what that reader returned. A literal is typed by its double only if it
is no short integer of at most 64 bits. Every text is classified, and no type of a text has parts.
-/

namespace Columnar.Scalar

/-- The grounds on which a trimmed text has a type. -/
inductive Classified (cs : List Char) : ColumnType → Prop
  | null : isNullWord cs = true → Classified cs .null
  | boolean {b} : booleanWord? cs = some b → Classified cs .boolean
  | date {d} : dateText? cs = some d → Classified cs .date
  | timestamp {t} : timestampText? cs = some t → Classified cs .timestamp
  | time {t} : timeText? cs = some t → Classified cs .time
  | word {d} : doubleWord? cs = some d → Classified cs .double
  | integer {n w} : exactInteger? cs = some n → Width.ofInt? n = some w →
      Classified cs (.integer w)
  | whole {d n} : (exactInteger? cs).bind Width.ofInt? = none → literalDouble? cs = some d →
      d.toInt? = some n → Width.w64.Holds n → Classified cs (.integer .w64)
  | double {d} : literalDouble? cs = some d → Classified cs .double
  | string : Classified cs .string

theorem temporalType?_classified {cs : List Char} {t : ColumnType}
    (h : temporalType? cs = some t) : Classified cs t := by
  unfold temporalType? at h
  split at h
  · cases h
  split at h
  · obtain rfl := Option.some.inj h
    obtain ⟨d, hd⟩ := Option.isSome_iff_exists.mp ‹_›
    exact .date hd
  split at h
  · obtain rfl := Option.some.inj h
    obtain ⟨t, ht⟩ := Option.isSome_iff_exists.mp ‹_›
    exact .timestamp ht
  split at h
  · obtain rfl := Option.some.inj h
    obtain ⟨t, ht⟩ := Option.isSome_iff_exists.mp ‹_›
    exact .time ht
  · cases h

theorem doubleType_classified {cs : List Char} {d : Double}
    (hint : (exactInteger? cs).bind Width.ofInt? = none) (hd : literalDouble? cs = some d) :
    Classified cs (doubleType d) := by
  unfold doubleType
  cases hn : d.toInt? with
  | none => exact .double hd
  | some n =>
    dsimp only
    split
    · exact .whole hint hd hn ‹_›
    · exact .double hd

theorem classified (text : String) : Classified (core text) (classify text) := by
  unfold classify
  dsimp only
  split
  · exact .null ‹_›
  split
  · obtain ⟨b, hb⟩ := Option.isSome_iff_exists.mp ‹_›
    exact .boolean hb
  split
  · exact temporalType?_classified ‹_›
  split
  · obtain ⟨d, hd⟩ := Option.isSome_iff_exists.mp ‹_›
    exact .word hd
  cases hint : (exactInteger? (core text)).bind Width.ofInt? with
  | some w =>
    obtain ⟨n, hn, hw⟩ := Option.bind_eq_some_iff.mp hint
    rw [integerType?, hint]
    exact .integer hn hw
  | none =>
    rw [integerType?, hint, Option.map_none]
    dsimp only
    split
    · exact doubleType_classified hint ‹_›
    · exact .string

/-- No type of a text has parts. -/
theorem classify_plain (text : String) : (classify text).isNested = false := by
  have h := classified text
  generalize classify text = t at h
  cases h <;> rfl

end Columnar.Scalar
