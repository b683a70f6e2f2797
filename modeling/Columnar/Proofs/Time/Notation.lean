import Columnar.Proofs.Time.Denotation

/-!
# Written dates and times read back

Dates and times are written with numbers of fixed width. Each number reads back up to the separator
behind it, the fraction of a second has exactly the six digits that count, and a timestamp is
written without an offset. Main statement: what is written reads back as itself.
-/

namespace Columnar

open Text

namespace Scalar

/-! ## Numbers of fixed width -/

theorem spells_padded {low width n : Nat} (hlow : low ≤ width) (hwidth : 0 < width)
    (hn : n < Nat.pow 10 width) : Spells low width (padded width n) n where
  low_le := by rwa [length_padded hwidth hn]
  le_high := Nat.le_of_eq (length_padded hwidth hn)
  digits := (padded_ascii width n).digits
  value := by rw [number_filterMap (padded_ascii width n), spelled_padded]

/-- All six digits of the microseconds are written, so none is cut off. -/
theorem writesFraction_padded {micro : Nat} (h : micro < 1000000) :
    WritesFraction (if micro = 0 then [] else '.' :: padded 6 micro) micro := by
  split
  · rename_i hzero
    rw [hzero]
    exact .none
  · have hsix : Spells 1 6 (padded 6 micro) micro := spells_padded (by decide) (by decide) h
    have hspells : Spells 1 9 (padded 6 micro) micro :=
      ⟨hsix.low_le, Nat.le_trans hsix.le_high (by decide), hsix.digits, hsix.value⟩
    have hall : micro * Nat.pow 10 6 / Nat.pow 10 6 = micro := Nat.mul_div_cancel _ (by decide)
    have hwrites := WritesFraction.digits hspells
    rwa [length_padded (by decide) h, hall] at hwrites

/-! ## Dates and times -/

theorem writesDate_text (d : Date) : WritesDate d.text (d.year, d.month, d.day) := by
  obtain ⟨-, hmonth, hday⟩ := d.month_bounds
  have hyear : d.year < Nat.pow 10 4 := Nat.lt_of_le_of_lt d.year_le (by decide)
  have hwrites := WritesDate.parts (spells_padded (Nat.le_refl 4) (by decide) hyear)
    (spells_padded (show 1 ≤ 2 by decide) (by decide) (Nat.lt_of_le_of_lt hmonth (by decide)))
    (spells_padded (show 1 ≤ 2 by decide) (by decide) (Nat.lt_of_le_of_lt hday (by decide)))
  simpa [Date.text] using hwrites

theorem writesTime_text (t : TimeOfDay) :
    WritesTime t.text (t.hour, t.minute, t.second, t.micro) := by
  have hhour : t.hour < Nat.pow 10 2 := Nat.lt_trans t.hour_lt (by decide)
  have hminute : t.minute < Nat.pow 10 2 := Nat.lt_trans t.minute_lt (by decide)
  have hsecond : t.second < Nat.pow 10 2 := Nat.lt_trans t.second_lt (by decide)
  have hwrites := WritesTime.parts (spells_padded (show 1 ≤ 2 by decide) (by decide) hhour)
    (spells_padded (Nat.le_refl 2) (by decide) hminute)
    (.parts (spells_padded (Nat.le_refl 2) (by decide) hsecond)
      (writesFraction_padded t.micro_lt))
  simpa [TimeOfDay.text] using hwrites

theorem dateText?_text (d : Date) : dateText? d.text = some d := by
  have hparts : takeDateParts (d.text ++ []) = some (_, []) :=
    takeDateParts_append (writesDate_text d) rfl
  rw [List.append_nil] at hparts
  rw [dateText?, hparts]
  exact d.ofParts?_self

theorem timeText?_text (t : TimeOfDay) : timeText? t.text = some t := by
  have hparts : takeTimeParts (t.text ++ []) = some (_, []) :=
    takeTimeParts_append (writesTime_text t) (endsTime_blanks (List.forall_mem_nil _) .none)
  rw [List.append_nil] at hparts
  rw [timeText?, hparts]
  exact t.ofParts?_self

/-- A timestamp is written in universal time, so no offset is taken off when it is read. -/
theorem timestampText?_text (t : Timestamp) : timestampText? t.text = some t := by
  have hwrites := WritesTimestamp.parts (writesDate_text t.date) (.letter (Or.inl rfl))
    (writesTime_text t.time) (List.forall_mem_nil _) .none
  refine timestampText?_eq_some_iff.mpr ⟨t.date, t.time, 0, ?_, (Int.sub_zero _).symm⟩
  simpa [Timestamp.text] using hwrites

end Scalar

/-! ## Written dates and times have no blanks -/

theorem Date.isBlank_text (d : Date) : ∀ c ∈ d.text, isBlank c = false := by
  unfold Date.text
  simp only [List.forall_mem_append, List.forall_mem_cons]
  exact ⟨⟨(padded_ascii 4 d.year).not_blank, rfl, (padded_ascii 2 d.month).not_blank⟩, rfl,
    (padded_ascii 2 d.day).not_blank⟩

theorem TimeOfDay.isBlank_text (t : TimeOfDay) : ∀ c ∈ t.text, isBlank c = false := by
  have hfraction : ∀ c ∈ if t.micro = 0 then [] else '.' :: padded 6 t.micro,
      isBlank c = false := by
    split
    · exact List.forall_mem_nil _
    · exact List.forall_mem_cons.mpr ⟨rfl, (padded_ascii 6 t.micro).not_blank⟩
  unfold TimeOfDay.text
  simp only [List.forall_mem_append, List.forall_mem_cons]
  exact ⟨⟨⟨(padded_ascii 2 t.hour).not_blank, rfl, (padded_ascii 2 t.minute).not_blank⟩, rfl,
    (padded_ascii 2 t.second).not_blank⟩, hfraction⟩

theorem Timestamp.isBlank_text (t : Timestamp) : ∀ c ∈ t.text, isBlank c = false := by
  unfold Timestamp.text
  simp only [List.forall_mem_append, List.forall_mem_cons]
  exact ⟨t.date.isBlank_text, rfl, t.time.isBlank_text⟩

end Columnar
