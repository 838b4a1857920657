import Lakehouse.Calendar.EpochDay
import Lakehouse.Format.Pattern
import Lakehouse.Proofs.Calendar.DatePattern.RoundTrip

/-!
# Instants, days and their texts

Clock times and instants in milliseconds are inverse to each other within the supported years, and
so are days and instants with their texts.

* `DateTime.ofMillis?_eq_some`: the clock time of an instant is the one with those milliseconds.
* `DatePattern.readMillis_writeMillis`: an instant is read back by a pattern that says everything
  about it; `DatePattern.readMillis_writeMillis_seconds`: to the second, by the pattern of seconds.
* `EpochDay.read_iso`: a day is read back from year, month and day, also from a year with a sign.
* `EpochDay.exists_ofMillis_iff`: which instants have a day.
-/

namespace Lakehouse

namespace DateTime

/-! ## Instants in milliseconds -/

theorem valid_ofDay {date : Date} {secondOfDay nanos : Nat} (hdate : date.Valid)
    (hrange : date.InRange) (hsecond : secondOfDay < 86400) (hnanos : nanos < 1000000000) :
    (ofDay date secondOfDay nanos).Valid where
  date := hdate
  range := hrange
  hour := by simp only [ofDay]; omega
  minute := by simp only [ofDay]; omega
  second := by simp only [ofDay]; omega
  nanos := hnanos

/-- The seconds of a clock time are those of its day. -/
theorem seconds_ofDay (date : Date) (secondOfDay nanos : Nat) :
    (ofDay date secondOfDay nanos).seconds = date.dayNumber * 86400 + secondOfDay := by
  simp only [ofDay, seconds]
  omega

/-- **The clock time of an instant** is the one with those milliseconds, and nothing finer. -/
theorem ofMillis?_eq_some {millis : Int} {t : DateTime} :
    ofMillis? millis = some t ↔ t.Valid ∧ t.nanos % 1000000 = 0 ∧ t.millis = millis := by
  unfold ofMillis?
  rw [Option.map_eq_some_iff]
  constructor
  · rintro ⟨date, hdate, rfl⟩
    obtain ⟨hvalid, hrange, hday⟩ := Date.ofDayNumber?_eq_some.mp hdate
    refine ⟨valid_ofDay hvalid hrange (by omega) (by omega), ?_, ?_⟩
    · simp only [ofDay]
      omega
    · unfold DateTime.millis
      rw [seconds_ofDay, hday]
      simp only [ofDay]
      omega
  · rintro ⟨ht, hnanos, rfl⟩
    obtain ⟨hdate, hrange, hhour, hminute, hsecond, hlimit⟩ := ht
    have hday : t.millis / 86400000 = t.date.dayNumber := by
      unfold DateTime.millis seconds
      omega
    have hrest : (t.millis % 86400000).toNat =
        (t.hour * 3600 + t.minute * 60 + t.second) * 1000 + t.nanos / 1000000 := by
      unfold DateTime.millis seconds
      omega
    refine ⟨t.date, Date.ofDayNumber?_eq_some.mpr ⟨hdate, hrange, hday.symm⟩, ?_⟩
    rw [hrest]
    obtain ⟨date, hour, minute, second, nanos⟩ := t
    simp only at hhour hminute hsecond hnanos hlimit ⊢
    simp only [ofDay, mk.injEq, true_and]
    omega

/-- The instants of the supported years fit into 64 bits. -/
theorem Valid.millis_bounds {t : DateTime} (ht : t.Valid) :
    -8640000000000000 ≤ t.millis ∧ t.millis < 8640000000000000 := by
  obtain ⟨hlow, hhigh⟩ := Date.InRange.dayNumber_bounds ht.date ht.range
  obtain ⟨-, -, hhour, hminute, hsecond, hnanos⟩ := ht
  unfold DateTime.millis seconds
  omega

theorem Valid.toInt_ofInt_millis {t : DateTime} (ht : t.Valid) :
    (Int64.ofInt t.millis).toInt = t.millis := by
  obtain ⟨hlow, hhigh⟩ := ht.millis_bounds
  exact Int64.toInt_ofInt_of_le (by omega) (by omega)

end DateTime

/-! ## Instants by a pattern -/

namespace DatePattern

theorem readMillis_eq {p : DatePattern} {text : String} {t : DateTime}
    (h : p.read text.toList = .ok t) : p.readMillis text = .ok (Int64.ofInt t.millis) := by
  unfold readMillis
  rw [h]

/-- An instant that is read is that of a clock time. -/
theorem readMillis_eq_ok {p : DatePattern} {text : String} {millis : Int64} :
    p.readMillis text = .ok millis ↔
      ∃ t, p.read text.toList = .ok t ∧ Int64.ofInt t.millis = millis := by
  constructor
  · intro h
    unfold readMillis at h
    split at h
    · rename_i t ht
      exact ⟨t, ht, Except.ok.inj h⟩
    · cases h
  · rintro ⟨t, ht, rfl⟩
    exact readMillis_eq ht

/-- Text that does not match is refused as text. -/
theorem kind_of_readMillis {p : DatePattern} {text : String} {fault : Fault}
    (h : p.readMillis text = .error fault) : fault.kind = .parseException := by
  unfold readMillis at h
  split at h
  · cases h
  · cases h
    rfl

/-- An instant that is written has a clock time. -/
theorem writeMillis_eq_ok {p : DatePattern} {millis : Int64} {text : String} :
    p.writeMillis millis = .ok text ↔
      ∃ t, DateTime.ofMillis? millis.toInt = some t ∧ text = String.ofList (p.write t) := by
  unfold writeMillis
  constructor
  · intro h
    split at h
    · rename_i t ht
      exact ⟨t, ht, (Except.ok.inj h).symm⟩
    · cases h
  · rintro ⟨t, ht, rfl⟩
    rw [ht]

/-- **An instant is read back by a pattern that says everything about it.** -/
theorem readMillis_writeMillis {p : DatePattern} {millis : Int64} {t : DateTime}
    (ht : DateTime.ofMillis? millis.toInt = some t) (h : p.Spells t) :
    p.readMillis (String.ofList (p.write t)) = .ok millis := by
  obtain ⟨hvalid, -, hmillis⟩ := DateTime.ofMillis?_eq_some.mp ht
  have hread : p.read (String.ofList (p.write t)).toList = .ok t := by
    rw [String.toList_ofList]
    exact read_write hvalid h
  rw [readMillis_eq hread, hmillis, Int64.ofInt_toInt]

/-- The pattern of seconds says everything about a whole second, in every year. -/
theorem spells_seconds {t : DateTime} (hnanos : t.nanos = 0) : seconds.Spells t := by
  have hdefaults : defaults seconds.tokens = [] := by decide
  have hlacking : lacking seconds.tokens = [] := by decide
  refine ⟨by decide, fun h => absurd h (by decide), by decide, .inl hnanos, ?_, ?_⟩
  · rw [hlacking, List.append_nil]
    exact exact_year_cons rfl ⟨trivial, trivial, trivial, trivial, trivial, trivial⟩
  · rw [hdefaults]
    exact fun m hm => absurd hm List.not_mem_nil

/-- **To the second, an instant is read back by the pattern of seconds.** -/
theorem readMillis_writeMillis_seconds {millis : Int64} {text : String}
    (h : seconds.writeMillis millis = .ok text) :
    ∃ t : DateTime, t.Valid ∧ t.millis = millis.toInt / 1000 * 1000 ∧
      seconds.readMillis text = .ok (Int64.ofInt t.millis) := by
  obtain ⟨t, ht, rfl⟩ := writeMillis_eq_ok.mp h
  obtain ⟨hvalid, -, hmillis⟩ := DateTime.ofMillis?_eq_some.mp ht
  have hnanos := hvalid.nanos
  -- what is finer than a second is not written
  let whole : DateTime := { t with nanos := 0 }
  have hwhole : whole.Valid := { hvalid with nanos := by simp [whole] }
  have hwritten : seconds.write t = seconds.write whole := rfl
  refine ⟨whole, hwhole, ?_, readMillis_eq ?_⟩
  · rw [← hmillis]
    simp only [DateTime.millis, DateTime.seconds, whole]
    omega
  · rw [hwritten, String.toList_ofList]
    exact read_write hwhole (spells_seconds rfl)

end DatePattern

/-! ## Days -/

namespace EpochDay

theorem iso_eq_ok {day : Int32} {text : String} :
    iso day = .ok text ↔
      ∃ d : Date, d.Valid ∧ d.InRange ∧ d.dayNumber = day.toInt ∧ text = String.ofList d.iso := by
  unfold iso date
  constructor
  · intro h
    cases hdate : Date.ofDayNumber? day.toInt with
    | none =>
      rw [hdate] at h
      cases h
    | some d =>
      rw [hdate] at h
      obtain ⟨hvalid, hrange, hday⟩ := Date.ofDayNumber?_eq_some.mp hdate
      exact ⟨d, hvalid, hrange, hday, (Except.ok.inj h).symm⟩
  · rintro ⟨d, hvalid, hrange, hday, rfl⟩
    rw [Date.ofDayNumber?_eq_some.mpr ⟨hvalid, hrange, hday⟩]
    rfl

/-- A date is read back from year, month and day. -/
theorem readDate_iso {d : Date} (hvalid : d.Valid) (hrange : d.InRange) :
    readDate d.iso = .ok d := by
  let t : DateTime := ⟨d, 0, 0, 0, 0⟩
  have ht : t.Valid := ⟨hvalid, hrange, by simp [t], by simp [t], by simp [t], by simp [t]⟩
  have hitems : isoItems = DatePattern.items DatePattern.days := by decide
  have htext : d.iso = DatePattern.days.flatMap (DatePattern.Token.write t) := by
    simp [Date.iso, DatePattern.days, DatePattern.Token.write, DatePattern.Field.write, t]
  have hexact : DatePattern.Exact t DatePattern.days :=
    DatePattern.exact_year_cons rfl ⟨trivial, trivial, trivial⟩
  have htold : DatePattern.TellsDate t (DatePattern.fields DatePattern.days) :=
    ⟨by decide, fun h => absurd h (by decide), by decide, by decide⟩
  unfold readDate
  rw [hitems, htext, DatePattern.readAll_write ht hexact]
  exact htold.date_told ht

/-- A date is written with digits, hyphens and signs. -/
theorem isPlain_of_mem_iso {d : Date} {c : Char} (h : c ∈ d.iso) :
    DatePattern.isPlain c = true := by
  have hpadded : ∀ n, c ∈ Numeral.padded 2 n → DatePattern.isPlain c = true := fun n hc =>
    DatePattern.isPlain_of_isDigit (Numeral.isDigit_of_mem_padded hc)
  simp only [Date.iso, List.mem_append, List.mem_cons] at h
  rcases h with (hyear | rfl | hmonth) | rfl | hday
  · exact DatePattern.isPlain_of_mem_yearChars hyear
  · rfl
  · exact hpadded _ hmonth
  · rfl
  · exact hpadded _ hday

/-- **A day is read back from year, month and day**, also when the year carries a sign. -/
theorem read_iso {day : Int32} {text : String} (h : iso day = .ok text) : read text = .ok day := by
  obtain ⟨d, hvalid, hrange, hday, rfl⟩ := iso_eq_ok.mp h
  unfold read
  rw [Text.trim, String.toList_ofList, String.toList_ofList, Text.trimmed_eq_self fun c hc =>
    DatePattern.isBlank_of_isPlain (isPlain_of_mem_iso hc), readDate_iso hvalid hrange]
  simp only [ofDate, hday, Int32.ofInt_toInt]

/-- The day of an instant is the one that its milliseconds are rounded down to. -/
theorem ofMillis_eq_ok {instant : Int64} {day : Int32} :
    ofMillis instant = .ok day ↔ day.toInt = instant.toInt / millisPerDay := by
  unfold ofMillis
  constructor
  · intro h
    split at h
    · rename_i n hn
      cases h
      exact toInt_of_int32? hn
    · cases h
  · intro h
    rw [← h, int32?_toInt]

/-- **An instant has a day** if 32 bits count it. -/
theorem exists_ofMillis_iff {instant : Int64} :
    (∃ day, ofMillis instant = .ok day) ↔
      -2 ^ (31 : Nat) ≤ instant.toInt / millisPerDay ∧
        instant.toInt / millisPerDay < 2 ^ (31 : Nat) := by
  constructor
  · rintro ⟨day, hday⟩
    rw [← ofMillis_eq_ok.mp hday]
    exact ⟨Int32.le_toInt day, Int32.toInt_lt day⟩
  · rintro ⟨hlow, hhigh⟩
    exact ⟨_, ofMillis_eq_ok.mpr (Int32.toInt_ofInt_of_le (by omega) (by omega))⟩

end EpochDay

end Lakehouse
