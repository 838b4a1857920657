import Lakehouse.Proofs.Calendar.Stamp
import Lakehouse.Proofs.Format.Statistic

/-!
# Instants that a format stores as text

Every format reads the text of an instant alike, by the pattern of seconds. What it makes of six
groups of digits says how strict that reading is: no month, day, hour or minute rolls over into the
next one, but a second number 60 does.

* `Precision.ofMillis_whole`, `Precision.toMillis_whole`: whole seconds in either precision.
* `TableFormat.statFromNative_readable`, `TableFormat.readable_of_statFromNative`: which stamps are
  read, and as which instants.
* `TableFormat.statToNative_stamp_iff`: which stamps Delta writes back as they were.
* `TableFormat.statFromNative_stamp`: the two together, in every format.

About `stat_from_native` and `DatePattern::parse_millis`, which are modelled in `Format.Statistic`
and `Calendar.DatePattern.Reader`.
-/

namespace Lakehouse

namespace Precision

/-- Whole seconds fit from milliseconds into either precision. -/
theorem ofMillis_whole (p : Precision) {n : Int} (hlow : -8640000000000 ≤ n)
    (hhigh : n ≤ 8640000000000) {millis : Int64} (h : millis.toInt = n * 1000) :
    ∃ instant, p.ofMillis millis = .ok instant ∧ instant.toInt = n * p.perSecond := by
  cases p with
  | millis => exact ⟨millis, rfl, h⟩
  | micros =>
    obtain ⟨instant, hinstant, hvalue⟩ :=
      TableFormat.int64?_of_bounds (n := millis.toInt * 1000) (by omega) (by omega)
    refine ⟨instant, ?_, ?_⟩
    · simp only [ofMillis, hinstant]
    · rw [hvalue, h, perSecond]
      omega

theorem toMillis_whole (p : Precision) {n : Int} {instant : Int64}
    (h : instant.toInt = n * p.perSecond) : (p.toMillis instant).toInt = n * 1000 := by
  cases p with
  | millis => exact h
  | micros =>
    rw [TableFormat.toInt_toMillis_micros, h, perSecond]
    omega

theorem kind_of_ofMillis {p : Precision} {millis : Int64} {fault : Fault}
    (h : p.ofMillis millis = .error fault) : fault.kind = .parseException := by
  cases p with
  | millis => cases h
  | micros =>
    unfold ofMillis at h
    simp only at h
    split at h
    · cases h
    · cases h
      rfl

end Precision

namespace TableFormat

variable (f : TableFormat) {field : Schema} {s : Stamp}

/-- Text of an instant column is read alike in every format. -/
theorem statFromNative_text (htype : field.type.isTimestamp = true) (text : String) :
    f.statFromNative (.string text) field =
      (DatePattern.seconds.readMillis text >>= field.precision.ofMillis) >>=
        fun instant => .ok (.long instant) := by
  rw [statFromNative_eq_readInstant htype rfl, bind_assoc]
  cases f <;> rfl

/-- Text is refused as text: it matches no instant, or none of the column's precision. -/
theorem kind_of_statFromNative_text (htype : field.type.isTimestamp = true) {text : String}
    {fault : Fault} (h : f.statFromNative (.string text) field = .error fault) :
    fault.kind = .parseException := by
  rw [statFromNative_text f htype] at h
  rcases bind_eq_error.mp h with h | ⟨_, -, h⟩
  · rcases bind_eq_error.mp h with hread | ⟨millis, -, hunit⟩
    · exact DatePattern.kind_of_readMillis hread
    · exact Precision.kind_of_ofMillis hunit
  · cases h

/-- **A readable stamp is read as the instant of its numbers**, in the column's precision. -/
theorem statFromNative_readable (htype : field.type.isTimestamp = true) (h : s.Readable) :
    ∃ instant : Int64,
      f.statFromNative (.string (String.ofList s.chars)) field = .ok (.long instant) ∧
        instant.toInt = s.clock.seconds * field.precision.perSecond := by
  obtain ⟨hlow, hhigh⟩ := h.seconds_bounds
  obtain ⟨millis, -, hmillis⟩ :=
    int64?_of_bounds (n := s.clock.seconds * 1000) (by omega) (by omega)
  obtain ⟨instant, hinstant, hvalue⟩ := field.precision.ofMillis_whole hlow hhigh hmillis
  refine ⟨instant, ?_, hvalue⟩
  rw [statFromNative_text f htype, Stamp.readMillis_eq_ok.mpr ⟨h, hmillis⟩, ok_bind, hinstant]
  rfl

/-- No other stamp is read. -/
theorem readable_of_statFromNative (htype : field.type.isTimestamp = true) {v : Value}
    (h : f.statFromNative (.string (String.ofList s.chars)) field = .ok v) : s.Readable := by
  rw [statFromNative_text f htype] at h
  obtain ⟨instant, h, -⟩ := bind_eq_ok.mp h
  obtain ⟨millis, h, -⟩ := bind_eq_ok.mp h
  exact (Stamp.readMillis_eq_ok.mp h).1

/-- **Delta writes a stamp back as it was**, unless its second is number 60. -/
theorem statToNative_stamp_iff (htype : field.type.isTimestamp = true) (hreadable : s.Readable)
    {instant : Int64} (h : instant.toInt = s.clock.seconds * field.precision.perSecond) :
    delta.statToNative (.long instant) field = .ok (.string (String.ofList s.chars)) ↔
      s.clock.second ≤ 59 := by
  have hwritten : delta.statToNative (.long instant) field =
      DatePattern.seconds.writeMillis (field.precision.toMillis instant) >>=
        fun text => .ok (.string text) := statToNative_eq_writeInstant htype instant
  rw [hwritten, bind_eq_ok, ← hreadable.writeMillis_iff (field.precision.toMillis_whole h)]
  simp

/-- **How strictly the text of an instant is read**, in every format and either precision. Six
groups of digits are read exactly when year, month and day are a date of the calendar, the hour is
at most 23 and the minute at most 59, and the second at most 60; all else is refused as text. What
is read is the instant of the six numbers, so second number 60 is the first one of the next minute,
and Delta writes it as that; every other stamp it writes back as it was. -/
theorem statFromNative_stamp (htype : field.type.isTimestamp = true) (s : Stamp) :
    ((∃ v, f.statFromNative (.string (String.ofList s.chars)) field = .ok v) ↔
        s.clock.date.Valid ∧ s.clock.hour ≤ 23 ∧ s.clock.minute ≤ 59 ∧ s.clock.second ≤ 60) ∧
      (∀ fault, f.statFromNative (.string (String.ofList s.chars)) field = .error fault →
        fault.kind = .parseException) ∧
      ∀ v, f.statFromNative (.string (String.ofList s.chars)) field = .ok v →
        (∃ instant : Int64, v = .long instant ∧
          instant.toInt = s.clock.seconds * field.precision.perSecond) ∧
        (delta.statToNative v field = .ok (.string (String.ofList s.chars)) ↔
          s.clock.second ≤ 59) := by
  refine ⟨⟨?_, ?_⟩, fun fault => kind_of_statFromNative_text f htype, fun v hv => ?_⟩
  · rintro ⟨v, hv⟩
    obtain ⟨hdate, hhour, hminute, hsecond⟩ := readable_of_statFromNative f htype hv
    exact ⟨hdate, hhour, hminute, hsecond⟩
  · rintro ⟨hdate, hhour, hminute, hsecond⟩
    have hreadable : s.Readable := ⟨hdate, hhour, hminute, hsecond⟩
    obtain ⟨instant, hread, -⟩ := statFromNative_readable f htype hreadable
    exact ⟨.long instant, hread⟩
  · have hreadable := readable_of_statFromNative f htype hv
    obtain ⟨instant, hread, hinstant⟩ := statFromNative_readable f htype hreadable
    cases hread.symm.trans hv
    exact ⟨⟨instant, rfl, hinstant⟩, statToNative_stamp_iff htype hreadable hinstant⟩

/-- A stamp that only a leap year has. -/
def lastOfLeapDay : Stamp where
  year := ⟨['2', '0', '2', '0'], rfl, List.all_eq_true.mp rfl⟩
  month := ⟨['0', '2'], rfl, List.all_eq_true.mp rfl⟩
  day := ⟨['2', '9'], rfl, List.all_eq_true.mp rfl⟩
  hour := ⟨['2', '3'], rfl, List.all_eq_true.mp rfl⟩
  minute := ⟨['5', '9'], rfl, List.all_eq_true.mp rfl⟩
  second := ⟨['5', '9'], rfl, List.all_eq_true.mp rfl⟩

/-- The last second of a leap day is read from Iceberg and written back by Delta. -/
theorem statFromNative_stamp_leap_day :
    let field : Schema :=
      ⟨"at", .timestampNtz, none, false, [], ⟨some (.precision .micros), none, none, none, none⟩⟩
    field.type.isTimestamp = true ∧
      ∃ v, iceberg.statFromNative (.string "2020-02-29 23:59:59") field = .ok v ∧
        delta.statToNative v field = .ok (.string "2020-02-29 23:59:59") := by
  intro field
  have htype : field.type.isTimestamp = true := rfl
  have htext : String.ofList lastOfLeapDay.chars = "2020-02-29 23:59:59" := by decide
  have hstamp := statFromNative_stamp iceberg htype lastOfLeapDay
  rw [htext] at hstamp
  obtain ⟨hread, -, hresult⟩ := hstamp
  obtain ⟨v, hv⟩ := hread.mpr (by decide)
  exact ⟨htype, v, hv, (hresult v hv).2.mpr (by decide)⟩

/-- **A second number 60 rolls over**: it is read as the first second of the next minute, and Delta
writes it as that. -/
theorem second_sixty_rolls_over :
    let field : Schema :=
      ⟨"at", .timestamp, none, false, [], ⟨some (.precision .millis), none, none, none, none⟩⟩
    delta.statFromNative (.string "2020-02-29 12:30:60") field = .ok (.long 1582979460000) ∧
      delta.statToNative (.long 1582979460000) field = .ok (.string "2020-02-29 12:31:00") := by
  decide +kernel

end TableFormat

end Lakehouse
