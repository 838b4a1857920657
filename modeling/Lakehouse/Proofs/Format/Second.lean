import Lakehouse.Proofs.Format.Statistic

/-!
# Delta tells instants apart by their seconds

Delta stores a bound of an instant column as a clock time to the second. An instant in microseconds
is first rounded down to milliseconds and then to seconds, which together rounds it down to seconds,
also before 1970; and a clock time is written in one way and read back from it in every supported
year. So bounds of different columns, in any precision, are stored alike exactly if they lie in one
second.

* `Precision.second`: the second of an instant, rounded down.
* `DatePattern.writeMillis_eq_secondText`: what is written depends on the second alone.
* `TableFormat.delta_stat_eq_iff_second`: two stored bounds are one text exactly if their instants
  lie in one second.

About `stat_to_native` of Delta, which is modelled in `Format.Statistic`.
-/

namespace Lakehouse

namespace Precision

/-- The UTC second of an instant, counted from 1970 and rounded down. -/
def second (p : Precision) (instant : Int64) : Int := instant.toInt / p.perSecond

/-- Rounding down to milliseconds and then to seconds is rounding down to seconds. -/
theorem toMillis_second (p : Precision) (instant : Int64) :
    (p.toMillis instant).toInt / 1000 = p.second instant := by
  cases p with
  | millis => rfl
  | micros =>
    rw [TableFormat.toInt_toMillis_micros]
    exact Int.ediv_ediv_of_nonneg (by decide)

end Precision

/-- A second of the calendar: it lies on a day of a supported year. -/
def Date.HasSecond (n : Int) : Prop :=
  ∃ d : Date, d.Valid ∧ d.InRange ∧ d.dayNumber = n / 86400

namespace DatePattern

/-- How a second is spelled. -/
def secondText (n : Int) : String :=
  String.ofList (seconds.write (.ofDay (.ofDayNumber (n / 86400)) (n % 86400).toNat 0))

/-- What is finer than a second is not written. -/
theorem write_seconds_ofDay (d : Date) (second nanos : Nat) :
    seconds.write (.ofDay d second nanos) = seconds.write (.ofDay d second 0) := rfl

/-- **What is written of an instant depends on its second alone.** -/
theorem writeMillis_eq_secondText {millis : Int64} (h : Date.HasSecond (millis.toInt / 1000)) :
    seconds.writeMillis millis = .ok (secondText (millis.toInt / 1000)) := by
  obtain ⟨d, hvalid, hrange, hday⟩ := h
  have hdays : millis.toInt / 1000 / 86400 = millis.toInt / 86400000 :=
    Int.ediv_ediv_of_nonneg (by decide)
  have hdate : Date.ofDayNumber (millis.toInt / 1000 / 86400) = d := by
    rw [← hday, Date.ofDayNumber_dayNumber hvalid]
  have hrest : (millis.toInt % 86400000).toNat / 1000 =
      (millis.toInt / 1000 % 86400).toNat := by omega
  refine writeMillis_eq_ok.mpr
    ⟨.ofDay d ((millis.toInt % 86400000).toNat / 1000)
      ((millis.toInt % 86400000).toNat % 1000 * 1000000), ?_, ?_⟩
  · unfold DateTime.ofMillis?
    rw [← hdays, Date.ofDayNumber?_eq_some.mpr ⟨hvalid, hrange, hday⟩]
    rfl
  · rw [secondText, hdate, ← hrest]
    exact congrArg String.ofList (write_seconds_ofDay d _ _).symm

/-- Different seconds are written differently. -/
theorem secondText_injective {a b : Int64} (ha : Date.HasSecond (a.toInt / 1000))
    (hb : Date.HasSecond (b.toInt / 1000))
    (h : secondText (a.toInt / 1000) = secondText (b.toInt / 1000)) :
    a.toInt / 1000 = b.toInt / 1000 := by
  obtain ⟨t, ht, htmillis, htread⟩ :=
    readMillis_writeMillis_seconds (writeMillis_eq_secondText ha)
  obtain ⟨u, hu, humillis, huread⟩ :=
    readMillis_writeMillis_seconds (writeMillis_eq_secondText hb)
  rw [h, huread] at htread
  have hsame : u.millis = t.millis := by
    rw [← hu.toInt_ofInt_millis, ← ht.toInt_ofInt_millis, Except.ok.inj htread]
  omega

end DatePattern

namespace TableFormat

variable {a b : Schema} {x y : Int64}

/-- A bound on a second of the calendar is stored as the text of that second. -/
theorem delta_statToNative_eq (htype : a.type.isTimestamp = true)
    (h : Date.HasSecond (a.precision.second x)) :
    delta.statToNative (.long x) a =
      .ok (.string (DatePattern.secondText (a.precision.second x))) := by
  rw [← a.precision.toMillis_second] at h ⊢
  rw [statToNative_eq_writeInstant htype]
  simp only [writeInstant, DatePattern.writeMillis_eq_secondText h]
  rfl

/-- **Delta tells instants apart by their seconds.** Bounds of two instant columns, with or without
a time zone and each in its own precision, are stored as text if they lie in a supported year; and
they are stored as the same text exactly if they lie in the same second. -/
theorem delta_stat_eq_iff_second (ha : a.type.isTimestamp = true) (hb : b.type.isTimestamp = true)
    (hx : Date.HasSecond (a.precision.second x)) (hy : Date.HasSecond (b.precision.second y)) :
    ∃ text text' : String,
      delta.statToNative (.long x) a = .ok (.string text) ∧
      delta.statToNative (.long y) b = .ok (.string text') ∧
      (text = text' ↔ a.precision.second x = b.precision.second y) := by
  refine ⟨_, _, delta_statToNative_eq ha hx, delta_statToNative_eq hb hy, fun h => ?_, fun h => ?_⟩
  · rw [← a.precision.toMillis_second] at hx h ⊢
    rw [← b.precision.toMillis_second] at hy h ⊢
    exact DatePattern.secondText_injective hx hy h
  · rw [h]

/-- One microsecond before 1970 is stored like the whole second before 1970 in a column of
milliseconds, and unlike the start of 1970; so are two instants of one second after the year 9999. -/
theorem delta_stat_eq_iff_second_around_1970 :
    let fine : Schema := ⟨"fine", .timestampNtz, none, true, [],
      { Metadata.empty with timestampPrecision := some (.precision .micros) }⟩
    let coarse : Schema := ⟨"coarse", .timestamp, none, true, [], .empty⟩
    delta.statToNative (.long (-1)) fine = delta.statToNative (.long (-1000)) coarse ∧
    delta.statToNative (.long (-1)) fine ≠ delta.statToNative (.long 0) coarse ∧
    delta.statToNative (.long 253402300800000001) fine =
      delta.statToNative (.long 253402300800999) coarse := by
  intro fine coarse
  have hdays : ∀ n : Int, (Date.ofDayNumber (n / 86400)).InRange → Date.HasSecond n := fun n h =>
    ⟨_, Date.valid_ofDayNumber _, h, Date.dayNumber_ofDayNumber _⟩
  have hfine : Date.HasSecond (fine.precision.second (-1)) := hdays _ (by decide +kernel)
  obtain ⟨text, text', htext, htext', hsame⟩ := delta_stat_eq_iff_second (a := fine) (b := coarse)
    (y := -1000) rfl rfl hfine (hdays _ (by decide +kernel))
  obtain ⟨other, other', hother, hother', hdiffer⟩ := delta_stat_eq_iff_second (a := fine)
    (b := coarse) (y := 0) rfl rfl hfine (hdays _ (by decide +kernel))
  obtain ⟨late, late', hlate, hlate', halike⟩ := delta_stat_eq_iff_second (a := fine) (b := coarse)
    (x := 253402300800000001) (y := 253402300800999) rfl rfl (hdays _ (by decide +kernel))
    (hdays _ (by decide +kernel))
  refine ⟨?_, ?_, ?_⟩
  · obtain rfl : text = text' := hsame.mpr (by decide)
    exact htext.trans htext'.symm
  · rw [hother, hother']
    intro h
    cases h
    exact absurd (hdiffer.mp rfl) (by decide)
  · obtain rfl : late = late' := halike.mpr (by decide)
    exact hlate.trans hlate'.symm

end TableFormat

end Lakehouse
