import Lakehouse.Proofs.Calendar.DatePattern.Compile
import Lakehouse.Proofs.Calendar.Instant
import Lakehouse.Proofs.Number.Numeral

/-!
# What a text can say about a time

Whatever a text says, each of its fields is read as one of a clock: the half of a day, an hour of a
half, a minute, a second. So the time that a text denotes is a clock time of a supported year, but
for the leap second, which may lie just behind them.

* `DatePattern.Parts.Bounded`: fields of a clock; `DatePattern.Field.bounded_of_read` and
  `DatePattern.readItems_bounded`: reading keeps to them.
* `DateTime.Readable`: a clock time, or a leap second; `DatePattern.readable_of_read`: all that is
  read is one.
* `DatePattern.readMillis_bounds`: how far from 1970 the instant of a text lies.
-/

namespace Lakehouse

/-! ## Fields of a clock -/

namespace DatePattern

theorem agree_eq_ok {α : Type} [DecidableEq α] {old known : Option α} {new : α}
    (h : agree old new = .ok known) : known = some new := by
  unfold agree at h
  split at h
  · split at h
    · rename_i heq
      cases h
      rw [heq]
    · cases h
  · exact (Except.ok.inj h).symm

/-- Fields that have been read each lie in the range of the field, as far as the time of day is
concerned. The hour is that of the half day, where twelve is zero. -/
structure Parts.Bounded (p : Parts) : Prop where
  half : ∀ n ∈ p.half, n ≤ 1
  hourOfHalf : ∀ n ∈ p.hourOfHalf, n ≤ 11
  minute : ∀ n ∈ p.minute, n ≤ 59
  second : ∀ n ∈ p.second, n ≤ 60
  nanos : ∀ n ∈ p.nanos, n < 1000000000

theorem Parts.bounded_none : Parts.none.Bounded := ⟨nofun, nofun, nofun, nofun, nofun⟩

namespace Parts.Bounded

variable {p q : Parts} {n : Nat}

theorem setYear {year : Int} (hp : p.Bounded) (h : p.setYear year = .ok q) : q.Bounded := by
  unfold Parts.setYear at h
  obtain ⟨known, -, h⟩ := bind_eq_ok.mp (ite_else_error_eq_ok.mp h).2
  cases h
  exact { hp with }

theorem setYearOfCentury (hp : p.Bounded) (h : p.setYearOfCentury n = .ok q) : q.Bounded := by
  obtain ⟨known, -, h⟩ := bind_eq_ok.mp h
  cases h
  exact { hp with }

theorem setMonth (hp : p.Bounded) (h : p.setMonth n = .ok q) : q.Bounded := by
  obtain ⟨m, -, h⟩ := bind_eq_ok.mp h
  obtain ⟨known, -, h⟩ := bind_eq_ok.mp h
  cases h
  exact { hp with }

theorem setDay (hp : p.Bounded) (h : p.setDay n = .ok q) : q.Bounded := by
  obtain ⟨m, -, h⟩ := bind_eq_ok.mp h
  obtain ⟨known, -, h⟩ := bind_eq_ok.mp h
  cases h
  exact { hp with }

theorem setWeekday (hp : p.Bounded) (h : p.setWeekday n = .ok q) : q.Bounded := by
  obtain ⟨known, -, h⟩ := bind_eq_ok.mp h
  cases h
  exact { hp with }

theorem setHalf (hp : p.Bounded) (hn : n ≤ 1) (h : p.setHalf n = .ok q) : q.Bounded := by
  obtain ⟨known, hknown, h⟩ := bind_eq_ok.mp h
  cases agree_eq_ok hknown
  cases h
  exact { hp with half := by simpa using hn }

theorem setHourOfHalf (hp : p.Bounded) (h : p.setHourOfHalf n = .ok q) : q.Bounded := by
  obtain ⟨m, -, h⟩ := bind_eq_ok.mp h
  obtain ⟨known, hknown, h⟩ := bind_eq_ok.mp h
  cases agree_eq_ok hknown
  cases h
  have hm : m % 12 ≤ 11 := by omega
  exact { hp with hourOfHalf := by simpa using hm }

theorem setHour (hp : p.Bounded) (h : p.setHour n = .ok q) : q.Bounded := by
  obtain ⟨m, hm, h⟩ := bind_eq_ok.mp h
  obtain ⟨half, hhalf, h⟩ := bind_eq_ok.mp h
  obtain ⟨hour, hhour, h⟩ := bind_eq_ok.mp h
  cases agree_eq_ok hhalf
  cases agree_eq_ok hhour
  cases h
  obtain ⟨rfl, -, hlast⟩ := within_eq_ok.mp hm
  have hhalf : n / 12 ≤ 1 := by omega
  have hhour : n % 12 ≤ 11 := by omega
  exact { hp with half := by simpa using hhalf, hourOfHalf := by simpa using hhour }

theorem setMinute (hp : p.Bounded) (h : p.setMinute n = .ok q) : q.Bounded := by
  obtain ⟨m, hm, h⟩ := bind_eq_ok.mp h
  obtain ⟨known, hknown, h⟩ := bind_eq_ok.mp h
  cases agree_eq_ok hknown
  cases h
  obtain ⟨rfl, -, hlast⟩ := within_eq_ok.mp hm
  exact { hp with minute := by simpa using hlast }

theorem setSecond (hp : p.Bounded) (h : p.setSecond n = .ok q) : q.Bounded := by
  obtain ⟨m, hm, h⟩ := bind_eq_ok.mp h
  obtain ⟨known, hknown, h⟩ := bind_eq_ok.mp h
  cases agree_eq_ok hknown
  cases h
  obtain ⟨rfl, -, hlast⟩ := within_eq_ok.mp hm
  exact { hp with second := by simpa using hlast }

theorem setNanos (hp : p.Bounded) (hn : n < 1000000000) (h : p.setNanos n = .ok q) :
    q.Bounded := by
  obtain ⟨known, hknown, h⟩ := bind_eq_ok.mp h
  cases agree_eq_ok hknown
  cases h
  exact { hp with nanos := by simpa using hn }

end Parts.Bounded

/-! ## Reading keeps to the clock -/

theorem takeHalf_le {n : Nat} {cs rest : List Char} (h : takeHalf cs = .ok (n, rest)) : n ≤ 1 := by
  unfold takeHalf at h
  repeat' split at h
  all_goals cases h
  · exact Nat.zero_le 1
  · exact Nat.le_refl 1

/-- Some digits of a fraction are less than a whole second. -/
theorem takeDigits_lt {width n : Nat} {cs rest : List Char} (hwidth : width ≤ 9)
    (h : takeDigits width cs = .ok (n, rest)) : n * 10 ^ (9 - width) < 1000000000 := by
  obtain ⟨-, hdigits, rfl, -⟩ := takeDigits_eq_ok.mp h
  have hlt := Numeral.ofDigitChars_lt hdigits
  have hlength : (cs.take width).length ≤ width := List.length_take_le ..
  calc Nat.ofDigitChars 10 (cs.take width) 0 * 10 ^ (9 - width)
      < 10 ^ (cs.take width).length * 10 ^ (9 - width) :=
        Nat.mul_lt_mul_of_pos_right hlt (Nat.pow_pos (by decide))
    _ ≤ 10 ^ width * 10 ^ (9 - width) :=
        Nat.mul_le_mul_right _ (Nat.pow_le_pow_right (by decide) hlength)
    _ = 1000000000 := by rw [← Nat.pow_add, Nat.add_sub_cancel' hwidth]

/-- **A field is read as one of a clock.** -/
theorem Field.bounded_of_read {f : Field} {p q : Parts} {cs rest : List Char}
    (hf : ∀ digits, f = .fraction digits → digits ≤ 9) (hp : p.Bounded)
    (h : f.read p cs = .ok (q, rest)) : q.Bounded := by
  cases f
  all_goals
    obtain ⟨⟨n, left⟩, htake, h⟩ := bind_eq_ok.mp h
    obtain ⟨parts, hset, h⟩ := bind_eq_ok.mp h
    cases h
  case year => exact hp.setYear hset
  case yearOfCentury => exact hp.setYearOfCentury hset
  case month | monthShort | monthName => exact hp.setMonth hset
  case day => exact hp.setDay hset
  case hour => exact hp.setHour hset
  case hourOfHalf => exact hp.setHourOfHalf hset
  case minute => exact hp.setMinute hset
  case second => exact hp.setSecond hset
  case fraction digits _ => exact hp.setNanos (takeDigits_lt (hf digits rfl) htake) hset
  case half => exact hp.setHalf (takeHalf_le htake) hset
  case weekdayShort | weekdayName => exact hp.setWeekday hset

/-- **Items are read as fields of a clock**, one after the other. -/
theorem readItems_bounded {items : List Item} {p q : Parts} {cs rest : List Char}
    (hitems : ∀ digits, .field (.fraction digits) ∈ items → digits ≤ 9) (hp : p.Bounded)
    (h : readItems p cs items = .ok (q, rest)) : q.Bounded := by
  induction items generalizing p cs with
  | nil =>
    cases h
    exact hp
  | cons item more ih =>
    obtain ⟨⟨parts, left⟩, hitem, h⟩ := bind_eq_ok.mp h
    refine ih (fun digits hmem => hitems digits (List.mem_cons_of_mem _ hmem)) ?_ h
    cases item with
    | blanks =>
      cases hitem
      exact hp
    | literal expected =>
      simp only [Item.read, ite_error_eq_ok, ite_else_error_eq_ok] at hitem
      cases hitem.2.2
      exact hp
    | field f =>
      refine Field.bounded_of_read (fun digits hf => ?_) hp hitem
      exact hitems digits (hf ▸ List.mem_cons_self)

/-- The fields among the items are those among the tokens. -/
theorem mem_fields_of_mem_items {f : Field} {tokens : List Token}
    (h : .field f ∈ items tokens) : f ∈ fields tokens := by
  rw [mem_fields]
  induction tokens with
  | nil => exact absurd h List.not_mem_nil
  | cons token rest ih =>
    refine List.mem_cons.mpr ?_
    cases token with
    | field g =>
      rcases List.mem_cons.mp h with hhead | htail
      · exact .inl (congrArg Token.field (Item.field.inj hhead))
      · exact .inr (ih htail)
    | char c =>
      refine .inr (ih ?_)
      unfold items at h
      split at h
      · simpa using h
      · split at h
        · split at h <;> simp_all
        · split at h
          · split at h <;> simp_all
          · simp_all

end DatePattern

/-! ## Times that are read -/

theorem Date.make?_eq_some {year : Int} {month day : Nat} {d : Date}
    (h : make? year month day = some d) : d.Valid ∧ d.InRange := by
  unfold make? at h
  simp only at h
  split at h
  · rename_i hdate
    cases h
    exact hdate
  · cases h

/-- A clock time as a text may denote it. A leap second is the last second of a minute, with a
thousand million nanoseconds more. -/
structure DateTime.Readable (t : DateTime) : Prop where
  date : t.date.Valid
  range : t.date.InRange
  hour : t.hour < 24
  minute : t.minute < 60
  second : t.second < 60
  nanos : t.nanos < 2000000000

/-- What is read lies in the supported years, but for a leap second behind the last of them. -/
theorem DateTime.Readable.millis_bounds {t : DateTime} (ht : t.Readable) :
    -8640000000000000 ≤ t.millis ∧ t.millis < 8640000000001000 := by
  obtain ⟨hlow, hhigh⟩ := Date.InRange.dayNumber_bounds ht.date ht.range
  obtain ⟨-, -, hhour, hminute, hsecond, hnanos⟩ := ht
  unfold DateTime.millis seconds
  omega

namespace DatePattern

theorem Parts.date_eq_ok {p : Parts} {d : Date} (h : p.date = .ok d) : d.Valid ∧ d.InRange := by
  obtain ⟨year, -, h⟩ := bind_eq_ok.mp h
  repeat' split at h
  all_goals cases h
  exact Date.make?_eq_some ‹_›

/-- Fields of a clock make a clock time, or a leap second. -/
theorem Parts.Bounded.readable_dateTime {p : Parts} {t : DateTime} (hp : p.Bounded)
    (h : p.dateTime = .ok t) : t.Readable := by
  obtain ⟨d, hd, h⟩ := bind_eq_ok.mp h
  obtain ⟨hvalid, hrange⟩ := Parts.date_eq_ok hd
  have hnanos : p.nanos.getD 0 < 1000000000 := by
    cases hread : p.nanos with
    | none => decide
    | some n => exact hp.nanos n hread
  split at h
  · rename_i half hour minute second hhalf hhour hminute hsecond
    have hhalf := hp.half half hhalf
    have hhour := hp.hourOfHalf hour hhour
    have hminute := hp.minute minute hminute
    have hsecond := hp.second second hsecond
    split at h
    · cases h
      exact ⟨hvalid, hrange, by simp only; omega, by simp only; omega, by simp, by simp only; omega⟩
    · cases h
      exact ⟨hvalid, hrange, by simp only; omega, by simp only; omega, by simp only; omega,
        by simp only; omega⟩
  · cases h

/-- **A text denotes a clock time or a leap second**, under every pattern that compiles. -/
theorem readable_of_read {source : String} {p : DatePattern} {cs : List Char} {t : DateTime}
    (hp : compile source = .ok p) (h : p.read cs = .ok t) : t.Readable := by
  obtain ⟨hspelled, -⟩ := compile_eq_ok hp
  unfold read at h
  simp only at h
  obtain ⟨parts, hread, h⟩ := bind_eq_ok.mp h
  obtain ⟨⟨q, rest⟩, hitems, hread⟩ := bind_eq_ok.mp hread
  have hq : q.Bounded := by
    refine readItems_bounded (fun digits hmem => ?_) Parts.bounded_none hitems
    rcases mem_allFields.mp (mem_fields_of_mem_items hmem) with hgiven | ⟨start, hmissing⟩
    · have hdigits := hspelled.fraction hgiven
      omega
    · simp [mem_defaults] at hmissing
  simp only at hread
  split at hread
  · cases hread
    exact hq.readable_dateTime h
  · cases hread

/-- **The instant of a text lies in the supported years**, but for a leap second behind the last of
them. -/
theorem readMillis_bounds {source text : String} {p : DatePattern} {millis : Int64}
    (hp : compile source = .ok p) (h : p.readMillis text = .ok millis) :
    -8640000000000000 ≤ millis.toInt ∧ millis.toInt < 8640000000001000 := by
  obtain ⟨t, ht, rfl⟩ := readMillis_eq_ok.mp h
  obtain ⟨hlow, hhigh⟩ := (readable_of_read hp ht).millis_bounds
  rw [Int64.toInt_ofInt_of_le (by omega) (by omega)]
  exact ⟨hlow, hhigh⟩

end DatePattern

end Lakehouse
