import Columnar.Proofs.Time.Grammar
import Columnar.Proofs.Time.Instant
import Columnar.Scalar.Classify

/-!
# What timestamps denote

A text that the grammar of timestamps gives a date and a time of day denotes an instant: the local
one less the offset. Main statement: a timestamp is read as the instant that it denotes, and it is
not read if that lies outside the years 1 to 9999.
-/

namespace Columnar

theorem TimeOfDay.ofParts?_eq_some_iff {hour minute second micro : Nat} {t : TimeOfDay} :
    ofParts? hour minute second micro = some t ↔
      t.hour = hour ∧ t.minute = minute ∧ t.second = second ∧ t.micro = micro := by
  constructor
  · intro h
    obtain ⟨_, ht⟩ := Option.dite_none_right_eq_some.mp h
    cases ht
    exact ⟨rfl, rfl, rfl, rfl⟩
  · rintro ⟨rfl, rfl, rfl, rfl⟩
    exact t.ofParts?_self

namespace Scalar

/-- A text is read as the timestamp whose instant is that of the date and time it writes, less the
offset. -/
theorem timestampText?_eq_some_iff {cs : List Char} {t : Timestamp} :
    timestampText? cs = some t ↔ ∃ (date : Date) (time : TimeOfDay) (offset : Int),
      WritesTimestamp cs (date.year, date.month, date.day)
        (time.hour, time.minute, time.second, time.micro) offset ∧
      t.instant = Timestamp.instant ⟨date, time⟩ - offset := by
  constructor
  · intro h
    obtain ⟨⟨⟨year, month, day⟩, ⟨hour, minute, second, micro⟩, offset⟩, hparts, hfields⟩ :=
      Option.bind_eq_some_iff.mp h
    obtain ⟨date, hdate, htimed⟩ := Option.bind_eq_some_iff.mp hfields
    obtain ⟨time, htime, hshift⟩ := Option.bind_eq_some_iff.mp htimed
    obtain ⟨rfl, rfl, rfl⟩ := Date.ofParts?_eq_some_iff.mp hdate
    obtain ⟨rfl, rfl, rfl, rfl⟩ := TimeOfDay.ofParts?_eq_some_iff.mp htime
    exact ⟨date, time, offset, timestampParts?_eq_some_iff.mp hparts,
      Timestamp.shift?_eq_some_iff.mp hshift⟩
  · rintro ⟨date, time, offset, hwrites, hinstant⟩
    unfold timestampText?
    simp only [Option.bind_eq_bind]
    rw [timestampParts?_eq_some_iff.mpr hwrites, Option.bind_some]
    dsimp only
    rw [date.ofParts?_self, Option.bind_some, time.ofParts?_self, Option.bind_some]
    exact Timestamp.shift?_eq_some_iff.mpr hinstant

/-- The text writes a date, a time of day and an offset, and this is the instant, in universal
time, of that date and time at that offset. -/
def Denotes (text : String) (n : Int) : Prop :=
  ∃ (date : Date) (time : TimeOfDay) (offset : Int),
    WritesTimestamp (core text) (date.year, date.month, date.day)
      (time.hour, time.minute, time.second, time.micro) offset ∧
    n = Timestamp.instant ⟨date, time⟩ - offset

/-- A text denotes one instant at most. -/
theorem Denotes.unique {text : String} {n m : Int} (hn : Denotes text n) (hm : Denotes text m) :
    n = m := by
  obtain ⟨date, time, offset, hwrites, rfl⟩ := hn
  obtain ⟨date', time', offset', hwrites', rfl⟩ := hm
  have hparts := timestampParts?_eq_some_iff.mpr hwrites
  rw [timestampParts?_eq_some_iff.mpr hwrites'] at hparts
  simp only [Option.some_inj, Prod.mk.injEq] at hparts
  obtain ⟨⟨hyear, hmonth, hday⟩, ⟨hhour, hminute, hsecond, hmicro⟩, rfl⟩ := hparts
  have hdate : some date = some date' :=
    date.ofParts?_self.symm.trans (Date.ofParts?_eq_some_iff.mpr ⟨hyear, hmonth, hday⟩)
  have htime : some time = some time' :=
    time.ofParts?_self.symm.trans
      (TimeOfDay.ofParts?_eq_some_iff.mpr ⟨hhour, hminute, hsecond, hmicro⟩)
  rw [Option.some.inj hdate, Option.some.inj htime]

theorem timestamp?_eq_some_iff {text : String} {t : Timestamp} :
    timestamp? text = some t ↔ Denotes text t.instant :=
  timestampText?_eq_some_iff

/-- **A timestamp is read as the instant that it denotes.** If the instant lies between the first
and the last timestamp, the text is read as the timestamp of that instant, and otherwise it is not
read at all. So two texts are read as the same timestamp exactly if they denote the same instant. -/
theorem timestamps_denote_instants :
    (∀ text n, Denotes text n →
      (Timestamp.first.instant ≤ n ∧ n ≤ Timestamp.last.instant →
        ∃ t, timestamp? text = some t ∧ t.instant = n) ∧
      (¬(Timestamp.first.instant ≤ n ∧ n ≤ Timestamp.last.instant) → timestamp? text = none)) ∧
    (∀ text t, timestamp? text = some t → Denotes text t.instant) ∧
    (∀ text other t u, timestamp? text = some t → timestamp? other = some u →
      (t = u ↔ ∃ n, Denotes text n ∧ Denotes other n)) := by
  refine ⟨?_, ?_, ?_⟩
  · intro text n hn
    constructor
    · intro hrange
      obtain ⟨t, rfl⟩ := Timestamp.exists_instant_iff.mpr hrange
      exact ⟨t, timestamp?_eq_some_iff.mpr hn, rfl⟩
    · intro hout
      rw [Option.eq_none_iff_forall_ne_some]
      intro t ht
      have hinstant : t.instant = n := (timestamp?_eq_some_iff.mp ht).unique hn
      exact hout (Timestamp.exists_instant_iff.mp ⟨t, hinstant⟩)
  · intro text t ht
    exact timestamp?_eq_some_iff.mp ht
  · intro text other t u ht hu
    have hdenotes := timestamp?_eq_some_iff.mp ht
    have hother := timestamp?_eq_some_iff.mp hu
    constructor
    · rintro rfl
      exact ⟨t.instant, hdenotes, hother⟩
    · rintro ⟨n, hn, hm⟩
      apply Timestamp.instant_injective
      rw [hdenotes.unique hn, hother.unique hm]

/-- Fourteen and a half hours are taken off, over midnight to the leap day before; a minute before
the start of year 1 there is no timestamp. -/
theorem offset_reaches_the_leap_day :
    timestamp? "2024-03-01 00:15:30.1234567 +14:30" = some
      ⟨⟨2024, 2, 29, by decide, by decide, by decide, by decide⟩,
        ⟨9, 45, 30, 123456, by decide, by decide, by decide, by decide⟩⟩ ∧
    timestamp? "0001-01-01T00:00+00:01" = none := by
  obtain ⟨hread, -, -⟩ := timestamps_denote_instants
  constructor
  · let leap : Timestamp := ⟨⟨2024, 2, 29, by decide, by decide, by decide, by decide⟩,
      ⟨9, 45, 30, 123456, by decide, by decide, by decide, by decide⟩⟩
    have hdenotes : Denotes "2024-03-01 00:15:30.1234567 +14:30" leap.instant := by
      have hparts : timestampParts? (core "2024-03-01 00:15:30.1234567 +14:30") =
          some ((2024, 3, 1), (0, 15, 30, 123456), 52200000000) := by rfl
      refine ⟨⟨2024, 3, 1, by decide, by decide, by decide, by decide⟩,
        ⟨0, 15, 30, 123456, by decide, by decide, by decide, by decide⟩, 52200000000,
        timestampParts?_eq_some_iff.mp hparts, ?_⟩
      rw [Timestamp.instant_eq_micros, Timestamp.instant_eq_micros]
      decide
    obtain ⟨t, ht, hinstant⟩ :=
      (hread _ _ hdenotes).1 (Timestamp.exists_instant_iff.mp ⟨leap, rfl⟩)
    rw [ht, Timestamp.instant_injective hinstant]
  · have hdenotes : Denotes "0001-01-01T00:00+00:01" (-60000000) := by
      refine ⟨⟨1, 1, 1, by decide, by decide, by decide, by decide⟩,
        ⟨0, 0, 0, 0, by decide, by decide, by decide, by decide⟩, 60000000,
        timestampParts?_eq_some_iff.mp (by decide), by decide⟩
    exact (hread _ _ hdenotes).2 fun hrange => absurd hrange.1 (by decide)

end Scalar

end Columnar
