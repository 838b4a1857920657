import Lakehouse.Partition.Bucket
import Lakehouse.Proofs.Calendar.DatePattern.Compile
import Lakehouse.Proofs.Calendar.Instant
import Mathlib

/-!
# Buckets survive their text

The text of a bucket under a pattern that spells the bucket's year and everything down to the unit
of the transform is read back as the start of the bucket.

* `Bucket.Begins`: a clock time that is the start of a bucket.
* `Bucket.start_spec`: the start of a bucket begins it, and falls into the bucket it starts.
* `Bucket.Names`: a pattern that spells the buckets of a transform.
* `Bucket.parse_render`: what was rendered is parsed as the start of the bucket.
* `Bucket.rendered_bucket_returns`: a bucket is rendered, and comes back, under every pattern that
  spells it.

About `render_time_bucket` and `parse_time_bucket`, which are modelled in `Partition.Bucket`.
-/

namespace Lakehouse.Bucket

open DatePattern (fields)

/-! ## Starts of buckets -/

/-- A clock time is the start of a bucket: whatever is finer than the bucket is at its first
value. -/
structure Begins (t : Transform) (c : DateTime) : Prop where
  nanos : c.nanos = 0
  second : c.second = 0
  minute : c.minute = 0
  hour : t ≠ .hour → c.hour = 0
  day : t = .month ∨ t = .year → c.date.day = 1
  month : t = .year → c.date.month = 1

/-- An instant on a multiple of a unit stays where it is. -/
theorem floorTo_of_dvd {t : Transform} {unit : Int} {begin : Int64}
    (h : begin.toInt / unit * unit = begin.toInt) : floorTo t unit begin = .ok begin := by
  unfold floorTo
  rw [h, int64?_toInt]

theorem floorTo_eq_ok {t : Transform} {unit : Int} {millis begin : Int64}
    (h : floorTo t unit millis = .ok begin) : begin.toInt = millis.toInt / unit * unit := by
  unfold floorTo at h
  split at h
  · rename_i n hn
    cases h
    exact toInt_of_int64? hn
  · cases h

/-- A clock time is read off its milliseconds, when they are whole hours. -/
theorem begins_hour {c : DateTime} (hc : c.Valid) (hnanos : c.nanos % 1000000 = 0)
    (h : c.millis % 3600000 = 0) : Begins .hour c := by
  obtain ⟨-, -, -, hminute, hsecond, hlimit⟩ := hc
  unfold DateTime.millis DateTime.seconds at h
  exact ⟨by omega, by omega, by omega, fun h => absurd rfl h, by simp, by simp⟩

theorem begins_day {c : DateTime} (hc : c.Valid) (hnanos : c.nanos % 1000000 = 0)
    (h : c.millis % 86400000 = 0) : Begins .day c := by
  obtain ⟨hnanos, hsecond, hminute, -, -, -⟩ := begins_hour hc hnanos (by omega)
  have hlimit := hc.hour
  unfold DateTime.millis DateTime.seconds at h
  exact ⟨hnanos, hsecond, hminute, fun _ => by omega, by simp, by simp⟩

/-- The first day of a month, at midnight. -/
def monthBegin (year : Int) (month : Nat) : DateTime := ⟨⟨year, month, 1⟩, 0, 0, 0, 0⟩

theorem valid_monthBegin {d : Date} (hvalid : d.Valid) (hrange : d.InRange) :
    (monthBegin d.year d.month).Valid where
  date := ⟨Nat.le_refl 1, Nat.le_trans hvalid.1 hvalid.2⟩
  range := hrange
  hour := by simp [monthBegin]
  minute := by simp [monthBegin]
  second := by simp [monthBegin]
  nanos := by simp [monthBegin]

theorem valid_yearBegin {d : Date} (hrange : d.InRange) : (monthBegin d.year 1).Valid :=
  valid_monthBegin (d := ⟨d.year, 1, 1⟩) ⟨Nat.le_refl 1, by simp [Date.monthLength]⟩ hrange

theorem millis_monthBegin (year : Int) (month : Nat) :
    (monthBegin year month).millis = monthStart year month := by
  unfold DateTime.millis DateTime.seconds monthStart monthBegin
  simp only
  omega

/-- The clock time of the first instant of a month. -/
theorem ofMillis?_monthStart {year : Int} {month : Nat} (h : (monthBegin year month).Valid) :
    DateTime.ofMillis? (Int64.ofInt (monthStart year month)).toInt =
      some (monthBegin year month) := by
  rw [← millis_monthBegin, h.toInt_ofInt_millis]
  exact DateTime.ofMillis?_eq_some.mpr ⟨h, rfl, rfl⟩

theorem dateOf_eq {millis : Int64} {c : DateTime}
    (h : DateTime.ofMillis? millis.toInt = some c) : dateOf millis = .ok c.date := by
  unfold dateOf
  rw [h]

theorem dateOf_eq_ok {millis : Int64} {d : Date} (h : dateOf millis = .ok d) :
    d.Valid ∧ d.InRange := by
  cases hc : DateTime.ofMillis? millis.toInt with
  | some c =>
    rw [dateOf_eq hc] at h
    cases h
    have hvalid := (DateTime.ofMillis?_eq_some.mp hc).1
    exact ⟨hvalid.date, hvalid.range⟩
  | none =>
    unfold dateOf at h
    rw [hc] at h
    cases h

/-- **The start of a bucket begins it**, and it falls into the bucket that it starts. -/
theorem start_spec {t : Transform} {millis begin : Int64} {c : DateTime}
    (ht : t.isTimeBased = true) (h : start t millis = .ok begin)
    (hc : DateTime.ofMillis? begin.toInt = some c) :
    Begins t c ∧ start t begin = .ok begin := by
  obtain ⟨hvalid, hnanos, hmillis⟩ := DateTime.ofMillis?_eq_some.mp hc
  cases t with
  | value => cases ht
  | hour =>
    have hbegin := floorTo_eq_ok h
    unfold millisPerHour at hbegin
    refine ⟨begins_hour hvalid hnanos (by omega), floorTo_of_dvd ?_⟩
    unfold millisPerHour
    omega
  | day =>
    have hbegin := floorTo_eq_ok h
    unfold EpochDay.millisPerDay at hbegin
    refine ⟨begins_day hvalid hnanos (by omega), floorTo_of_dvd ?_⟩
    unfold EpochDay.millisPerDay
    omega
  | month =>
    obtain ⟨d, hd, hbegin⟩ := bind_eq_ok.mp h
    cases hbegin
    obtain ⟨hdate, hrange⟩ := dateOf_eq_ok hd
    have hclock := ofMillis?_monthStart (valid_monthBegin hdate hrange)
    rw [hclock] at hc
    cases hc
    refine ⟨⟨rfl, rfl, rfl, fun _ => rfl, fun _ => rfl, by simp⟩, ?_⟩
    unfold start
    rw [dateOf_eq hclock]
    rfl
  | year =>
    obtain ⟨d, hd, hbegin⟩ := bind_eq_ok.mp h
    cases hbegin
    have hclock := ofMillis?_monthStart (valid_yearBegin (dateOf_eq_ok hd).2)
    rw [hclock] at hc
    cases hc
    refine ⟨⟨rfl, rfl, rfl, fun _ => rfl, fun _ => rfl, fun _ => rfl⟩, ?_⟩
    unfold start
    rw [dateOf_eq hclock]
    rfl

/-! ## Patterns of buckets -/

/-- A pattern spells the buckets of a transform: a year in full, and everything from the month down
to the unit of the transform. -/
structure Names (t : Transform) (p : DatePattern) : Prop where
  year : .year ∈ fields p.tokens
  month : t ≠ .year →
    .month ∈ fields p.tokens ∨ .monthShort ∈ fields p.tokens ∨ .monthName ∈ fields p.tokens
  day : t = .day ∨ t = .hour → .day ∈ fields p.tokens
  hour : t = .hour → .hour ∈ fields p.tokens ∨ .hourOfHalf ∈ fields p.tokens

/-- In years of four digits, every field says where it ends. -/
theorem exact_of_year {c : DateTime} (hnanos : c.nanos = 0)
    (hyear : 0 ≤ c.date.year ∧ c.date.year ≤ 9999) {tokens : List DatePattern.Token}
    (hfraction : ∀ digits, .fraction digits ∈ fields tokens →
      digits = 3 ∨ digits = 6 ∨ digits = 9) : DatePattern.Exact c tokens := by
  induction tokens with
  | nil => trivial
  | cons token rest ih =>
    cases token with
    | char => exact ih hfraction
    | field f =>
      refine ⟨?_, ih fun digits h => hfraction digits (List.mem_cons_of_mem _ h)⟩
      cases f with
      | year => exact .inl hyear
      | fraction digits =>
        exact ⟨hfraction digits List.mem_cons_self, by rw [hnanos, Nat.zero_mod]⟩
      | _ => trivial

/-- **A pattern that spells a bucket says everything about its start**, if its fields say where they
end. -/
theorem Names.spells_of_exact {t : Transform} {source : String} {p : DatePattern} {c : DateTime}
    (h : Names t p) (ht : t.isTimeBased = true) (hp : DatePattern.compile source = .ok p)
    (hbegins : Begins t c) (hcentury : .yearOfCentury ∈ fields p.tokens → 0 ≤ c.date.year)
    (hexact : DatePattern.Exact c (p.tokens ++ DatePattern.lacking p.tokens)) : p.Spells c := by
  refine ⟨h.year, hcentury, (DatePattern.compile_eq_ok hp).2, .inl hbegins.nanos, hexact, ?_⟩
  intro m hm
  rcases DatePattern.mem_defaults.mp hm with
    ⟨rfl, hnone⟩ | ⟨rfl, hnone⟩ | ⟨rfl, hnone⟩ | ⟨rfl, -⟩ | ⟨rfl, -⟩
  · have hyear : t = .year := by
      by_cases hyear : t = .year
      · exact hyear
      · exact absurd (h.month hyear) (by simpa using hnone)
    simp only [DatePattern.Field.write, hbegins.month hyear]
    rfl
  · have hcoarse : t = .month ∨ t = .year := by
      cases t with
      | value => cases ht
      | month => exact .inl rfl
      | year => exact .inr rfl
      | day => exact absurd (h.day (.inl rfl)) hnone
      | hour => exact absurd (h.day (.inr rfl)) hnone
    simp only [DatePattern.Field.write, hbegins.day hcoarse]
    rfl
  · have hcoarse : t ≠ .hour := fun hhour => absurd (h.hour hhour) (by simpa using hnone)
    simp only [DatePattern.Field.write, hbegins.hour hcoarse]
    rfl
  · simp only [DatePattern.Field.write, hbegins.minute]
    rfl
  · simp only [DatePattern.Field.write, hbegins.second]
    rfl

/-- In years of four digits the fields say where they end. -/
theorem Names.spells {t : Transform} {source : String} {p : DatePattern} {c : DateTime}
    (h : Names t p) (ht : t.isTimeBased = true) (hp : DatePattern.compile source = .ok p)
    (hbegins : Begins t c) (hyear : 0 ≤ c.date.year ∧ c.date.year ≤ 9999) : p.Spells c := by
  obtain ⟨hspelled, -⟩ := DatePattern.compile_eq_ok hp
  refine h.spells_of_exact ht hp hbegins (fun _ => hyear.1)
    (exact_of_year hbegins.nanos hyear fun digits hf => ?_)
  rcases DatePattern.mem_allFields.mp hf with hf | ⟨start, hf⟩
  · exact hspelled.fraction hf
  · simp [DatePattern.mem_defaults] at hf

/-- **The text of a bucket has the slashes of its pattern**, no equals sign of its own, and the
digits of its year. -/
theorem Names.write_spec {t : Transform} {source : String} {p : DatePattern} (h : Names t p)
    (hp : DatePattern.compile source = .ok p) (c : DateTime) :
    (p.write c).count '/' = source.toList.count '/' ∧
      ('=' ∉ source.toList → '=' ∉ p.write c) ∧ ∃ d ∈ p.write c, d.isDigit = true := by
  obtain ⟨hspelled, -⟩ := DatePattern.compile_eq_ok hp
  refine ⟨?_, fun hequals hmem => ?_, ?_⟩
  · rw [← hspelled.count_slash]
    exact DatePattern.count_write rfl c p.tokens
  · rcases DatePattern.mem_write hmem with hliteral | hplain
    · exact hequals (hspelled.mem hliteral)
    · exact absurd hplain (by decide)
  · have hyear := DatePattern.mem_fields.mp h.year
    obtain ⟨d, ds, hds, hdigit⟩ := Numeral.padded_eq_cons 4 c.date.year.natAbs
    have hd : d ∈ Numeral.padded 4 c.date.year.natAbs := hds ▸ List.mem_cons_self
    refine ⟨d, List.mem_flatMap.mpr ⟨_, hyear, ?_⟩, hdigit⟩
    simp only [DatePattern.Token.write, DatePattern.Field.write, Date.yearChars]
    split
    · exact hd
    · exact List.mem_cons_of_mem _ hd

/-! ## Writing and reading buckets -/

/-- The canonical value of the bucket that a value falls into. -/
def valueOf (v : Value) (type : DataType) (t : Transform) : Except Fault Value := do
  let millis ← instant v type
  let begin ← start t millis
  canonical begin type

theorem compile_of_pattern {source : String} {t : Transform} {p : DatePattern}
    (h : pattern source t = .ok p) : DatePattern.compile source = .ok p := by
  unfold pattern at h
  split at h
  · cases h
  · exact mapError_eq_ok.mp h

/-- What was rendered is the start of the value's bucket, in the pattern's form. -/
theorem render_eq_ok {v : Value} {type : DataType} {t : Transform} {source text : String}
    (h : render v type t source = .ok text) :
    type.isTemporal = true ∧ ∃ p millis begin c, pattern source t = .ok p ∧
      DatePattern.compile source = .ok p ∧ instant v type = .ok millis ∧
      start t millis = .ok begin ∧ DateTime.ofMillis? begin.toInt = some c ∧
      text = String.ofList (p.write c) := by
  unfold render at h
  split at h
  · rename_i htype
    obtain ⟨p, hp, h⟩ := bind_eq_ok.mp h
    obtain ⟨millis, hmillis, h⟩ := bind_eq_ok.mp h
    obtain ⟨begin, hbegin, h⟩ := bind_eq_ok.mp h
    obtain ⟨c, hc, htext⟩ := DatePattern.writeMillis_eq_ok.mp (mapError_eq_ok.mp h)
    exact ⟨htype, p, millis, begin, c, hp, compile_of_pattern hp, hmillis,
      mapError_eq_ok.mp hbegin, hc, htext⟩
  · cases h

/-- An instant has a canonical value when its day fits into 32 bits. -/
theorem exists_canonical_of_fits {begin : Int64}
    (h : -2 ^ 31 ≤ begin.toInt / EpochDay.millisPerDay ∧
      begin.toInt / EpochDay.millisPerDay < 2 ^ 31) (type : DataType) :
    ∃ value, canonical begin type = .ok value := by
  unfold canonical
  split
  · obtain ⟨day, hday⟩ := EpochDay.exists_ofMillis_iff.mpr h
    rw [hday]
    exact ⟨_, rfl⟩
  · exact ⟨_, rfl⟩

/-- The start of a bucket has a canonical value: a supported day fits into 32 bits. -/
theorem exists_canonical {begin : Int64} {c : DateTime}
    (hc : DateTime.ofMillis? begin.toInt = some c) (type : DataType) :
    ∃ value, canonical begin type = .ok value := by
  obtain ⟨hvalid, -, hmillis⟩ := DateTime.ofMillis?_eq_some.mp hc
  obtain ⟨hlow, hhigh⟩ := hvalid.millis_bounds
  refine exists_canonical_of_fits ?_ type
  unfold EpochDay.millisPerDay
  omega

/-- **What was rendered is parsed as the start of the bucket**, under a pattern that says everything
about that start. -/
theorem parse_render_of_spells {v : Value} {type : DataType} {t : Transform} {source text : String}
    (ht : t.isTimeBased = true) (h : render v type t source = .ok text)
    (hspells : ∀ p millis begin c, DatePattern.compile source = .ok p →
      instant v type = .ok millis → start t millis = .ok begin →
      DateTime.ofMillis? begin.toInt = some c → Begins t c → p.Spells c) :
    ∃ value, valueOf v type t = .ok value ∧ parse text type t source = .ok value := by
  obtain ⟨htype, p, millis, begin, c, hp, hcompile, hmillis, hbegin, hc, rfl⟩ := render_eq_ok h
  obtain ⟨hbegins, hstart⟩ := start_spec ht hbegin hc
  obtain ⟨value, hvalue⟩ := exists_canonical hc type
  have hread := DatePattern.readMillis_writeMillis hc
    (hspells p millis begin c hcompile hmillis hbegin hc hbegins)
  refine ⟨value, ?_, ?_⟩
  · unfold valueOf
    rw [hmillis, ok_bind, hbegin, ok_bind, hvalue]
  · unfold parse
    rw [if_pos htype, hp, ok_bind, hread, ok_bind, hstart]
    exact hvalue

/-- A pattern that spells the buckets of the transform says everything about their starts, in years
of four digits. -/
theorem parse_render {v : Value} {type : DataType} {t : Transform} {source text : String}
    (ht : t.isTimeBased = true) (h : render v type t source = .ok text)
    (hnames : ∀ p, DatePattern.compile source = .ok p → Names t p)
    (hyear : ∀ millis begin c, instant v type = .ok millis → start t millis = .ok begin →
      DateTime.ofMillis? begin.toInt = some c → 0 ≤ c.date.year ∧ c.date.year ≤ 9999) :
    ∃ value, valueOf v type t = .ok value ∧ parse text type t source = .ok value :=
  parse_render_of_spells ht h fun p millis begin c hcompile hmillis hbegin hc hbegins =>
    (hnames p hcompile).spells ht hcompile hbegins (hyear millis begin c hmillis hbegin hc)

/-- A value falls into a bucket that starts at a clock time. -/
def StartsAt (v : Value) (type : DataType) (t : Transform) (c : DateTime) : Prop :=
  ∃ millis begin, instant v type = .ok millis ∧ start t millis = .ok begin ∧
    DateTime.ofMillis? begin.toInt = some c

/-- A text that spells a field of a date is not blank: every run of letters is visible. -/
theorem isAllBlank_eq_false {source : String} {p : DatePattern} {f : DatePattern.Field}
    (hp : DatePattern.compile source = .ok p) (hf : f ∈ fields p.tokens) :
    Text.isAllBlank source = false := by
  obtain ⟨hspelled, -⟩ := DatePattern.compile_eq_ok hp
  obtain ⟨c, hc, halpha⟩ := hspelled.exists_letter (DatePattern.mem_fields.mp hf)
  unfold Text.isAllBlank
  rw [List.all_eq_false]
  exact ⟨c, hc, by simp [Text.isBlank_of_isAlpha halpha]⟩

theorem pattern_eq_ok {source : String} {p : DatePattern} {f : DatePattern.Field} (t : Transform)
    (hp : DatePattern.compile source = .ok p) (hf : f ∈ fields p.tokens) :
    pattern source t = .ok p := by
  unfold pattern
  rw [isAllBlank_eq_false hp hf, hp]
  rfl

/-- A value whose bucket starts within the supported years is rendered, in the pattern's form. -/
theorem render_of_startsAt {v : Value} {type : DataType} {t : Transform} {source : String}
    {p : DatePattern} {c : DateTime} (htype : type.isTemporal = true)
    (hpattern : pattern source t = .ok p) (h : StartsAt v type t c) :
    render v type t source = .ok (String.ofList (p.write c)) := by
  obtain ⟨millis, begin, hmillis, hbegin, hc⟩ := h
  have hwrite : p.writeMillis begin = .ok (String.ofList (p.write c)) :=
    DatePattern.writeMillis_eq_ok.mpr ⟨c, hc, rfl⟩
  unfold render
  rw [if_pos htype, hpattern, ok_bind, hmillis, ok_bind, hbegin]
  simp only [Except.mapError, ok_bind, hwrite]

/-- **A bucket is rendered and comes back**: under every pattern that compiles and spells the
buckets of the transform, for every value whose bucket starts in a year of four digits, the text is
written, and read as the start of the bucket. -/
theorem rendered_bucket_returns {v : Value} {type : DataType} {t : Transform} {source : String}
    {p : DatePattern} {c : DateTime} (ht : t.isTimeBased = true) (htype : type.isTemporal = true)
    (hp : DatePattern.compile source = .ok p) (hnames : Names t p) (hstart : StartsAt v type t c)
    (hyear : 0 ≤ c.date.year ∧ c.date.year ≤ 9999) :
    ∃ text value, render v type t source = .ok text ∧ valueOf v type t = .ok value ∧
      parse text type t source = .ok value := by
  have hrender := render_of_startsAt htype (pattern_eq_ok t hp hnames.year) hstart
  obtain ⟨value, hvalue, hparse⟩ := parse_render ht hrender
    (fun q hq => by
      cases hp.symm.trans hq
      exact hnames)
    (fun millis begin d hmillis hbegin hd => by
      obtain ⟨millis', begin', hmillis', hbegin', hc⟩ := hstart
      cases hmillis'.symm.trans hmillis
      cases hbegin'.symm.trans hbegin
      cases hc.symm.trans hd
      exact hyear)
  exact ⟨_, value, hrender, hvalue, hparse⟩

/-- Names and digits side by side, the half of the day in front of its hour, a quoted letter, and a
year that is said twice. -/
theorem rendered_bucket_returns_without_separators :
    let source := "EEEEahh'h'MMMMdyy''yyyy"
    ∃ p, DatePattern.compile source = .ok p ∧ Names .hour p ∧
      ∃ text value, render (.long 1665263297000) .timestamp .hour source = .ok text ∧
        valueOf (.long 1665263297000) .timestamp .hour = .ok value ∧
        parse text .timestamp .hour source = .ok value := by
  intro source
  have hp : DatePattern.compile source = .ok ⟨source, [.field .weekdayName, .field .half,
      .field .hourOfHalf, .char 'h', .field .monthName, .field .day, .field .yearOfCentury,
      .char '\'', .field .year]⟩ := by cbv
  have hnames : Names .hour ⟨source, [.field .weekdayName, .field .half, .field .hourOfHalf,
      .char 'h', .field .monthName, .field .day, .field .yearOfCentury, .char '\'',
      .field .year]⟩ :=
    ⟨by decide, fun _ => by decide, fun _ => by decide, fun _ => by decide⟩
  have hclock : DateTime.ofMillis? (1665262800000 : Int64).toInt =
      some ⟨⟨2022, 10, 8⟩, 21, 0, 0, 0⟩ := by decide +kernel
  have hstart : start .hour 1665263297000 = .ok 1665262800000 := by cbv
  exact ⟨_, hp, hnames, rendered_bucket_returns rfl rfl hp hnames
    ⟨_, _, rfl, hstart, hclock⟩ (by decide)⟩

end Lakehouse.Bucket
