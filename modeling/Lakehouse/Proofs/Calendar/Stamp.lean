import Lakehouse.Proofs.Calendar.Instant
import Lakehouse.Proofs.Except

/-!
# Stamps: six groups of digits

Instants to the second are spelled as six groups of digits. Any digits may stand in such a stamp,
so the date and the time of day that it spells need not exist. A stamp is read exactly when they do,
or when all that is wrong is a second number 60: that one is taken for the end of second number 59,
which in milliseconds is the start of the next minute.

* `Stamp.chars_eq_write`: a stamp is what the pattern of seconds writes of its numbers.
* `Stamp.read_chars`: its numbers are recorded one after the other.
* `Stamp.read_chars_eq_ok`: when a stamp is read, and as which clock time.
* `Stamp.readMillis_eq_ok`: the instant of a stamp; `Stamp.Readable.writeMillis_iff`: when that
  instant is written as the stamp.
-/

namespace Lakehouse

/-- So many digits in a row. -/
structure Digits (width : Nat) where
  chars : List Char
  length_eq : chars.length = width
  isDigit : ∀ c ∈ chars, c.isDigit = true

namespace Digits

variable {width : Nat} (ds : Digits width)

/-- The number that digits denote. -/
def number : Nat := Nat.ofDigitChars 10 ds.chars 0

theorem number_lt : ds.number < 10 ^ width := by
  have hlt := Numeral.ofDigitChars_lt ds.isDigit
  rwa [ds.length_eq] at hlt

theorem padded_number (hwidth : 0 < width) : Numeral.padded width ds.number = ds.chars :=
  Numeral.padded_ofDigitChars hwidth ds.length_eq ds.isDigit

/-- Four digits are what the year of their number is written as. -/
theorem yearChars_number (ds : Digits 4) : Date.yearChars ds.number = ds.chars := by
  have hlt := ds.number_lt
  rw [Date.yearChars, if_pos (by omega), Int.natAbs_natCast, ds.padded_number (by omega)]

end Digits

/-- A date and a time of day in digits, whether or not they exist. -/
structure Stamp where
  year : Digits 4
  month : Digits 2
  day : Digits 2
  hour : Digits 2
  minute : Digits 2
  second : Digits 2

namespace DatePattern

/-! ## Reading groups of digits -/

/-- A pattern that lacks no field reads its text as it is. -/
theorem read_of_defaults_eq_nil {p : DatePattern} (h : defaults p.tokens = []) (cs : List Char) :
    p.read cs = readAll (items p.tokens) cs >>= Parts.dateTime := by
  unfold read
  simp only [h, List.flatMap_nil, List.append_nil]

/-- A field takes its number from the text, then records or refuses it. -/
theorem readItems_field {α : Type} {f : Field} {take : List Char → Except Mismatch (α × List Char)}
    {set : Parts → α → Except Mismatch Parts}
    (hread : ∀ p cs, f.read p cs = take cs >>= fun x => return (← set p x.1, x.2))
    {text cs : List Char} {n : α} (htaken : take text = .ok (n, cs)) (p : Parts)
    (more : List Item) :
    readItems p text (.field f :: more) = set p n >>= fun q => readItems q cs more := by
  rw [readItems_cons]
  simp only [Item.read, hread, htaken, ok_bind]
  cases set p n <;> rfl

/-- Four digits are read as a year. -/
theorem takeYear_digits (ds : Digits 4) (cs : List Char) :
    takeYear (ds.chars ++ cs) = .ok (ds.number, cs) := by
  have hlt := ds.number_lt
  rw [← ds.yearChars_number]
  exact takeYear_yearChars (by omega) (.inl (by omega))

/-- Two digits are read as a number. -/
theorem takeField_digits (ds : Digits 2) (cs : List Char) :
    takeField 2 (ds.chars ++ cs) = .ok (ds.number, cs) := by
  rw [← ds.padded_number (by omega)]
  exact takeField_two ds.number_lt cs

/-- A blank in front of digits is skipped, and no digit with it. -/
theorem readItems_blank (p : Parts) (ds : Digits 2) (cs : List Char) (more : List Item) :
    readItems p (' ' :: (ds.chars ++ cs)) (.blanks :: more) =
      readItems p (ds.chars ++ cs) more := by
  obtain ⟨c, rest, hchars, hc⟩ := Numeral.padded_eq_cons 2 ds.number
  rw [ds.padded_number (by omega)] at hchars
  have hdrop : Text.dropBlanks (' ' :: (ds.chars ++ cs)) = ds.chars ++ cs := by
    rw [hchars, List.cons_append]
    exact Text.dropBlanks_cons _ (Text.isBlank_of_isDigit hc)
  rw [readItems_cons]
  simp only [Item.read, hdrop]
  rfl

end DatePattern

namespace Stamp

open DatePattern

variable (s : Stamp)

/-- The text of a stamp. -/
def chars : List Char :=
  s.year.chars ++ '-' :: s.month.chars ++ '-' :: s.day.chars ++
    ' ' :: s.hour.chars ++ ':' :: s.minute.chars ++ ':' :: s.second.chars

/-- The numbers of a stamp as a date and a time of day. -/
def clock : DateTime :=
  ⟨⟨s.year.number, s.month.number, s.day.number⟩, s.hour.number, s.minute.number,
    s.second.number, 0⟩

/-- **A stamp is what the pattern of seconds writes of its numbers.** -/
theorem chars_eq_write : s.chars = seconds.write s.clock := by
  simp [chars, clock, DatePattern.write, seconds, days, DatePattern.clock, Token.write, Field.write,
    Digits.padded_number, Digits.yearChars_number]

/-! ## Recording the numbers -/

/-- The numbers of a stamp, recorded one after the other. -/
def record : Except Mismatch Parts := do
  let p ← Parts.none.setYear s.year.number
  let p ← p.setMonth s.month.number
  let p ← p.setDay s.day.number
  let p ← p.setHour s.hour.number
  let p ← p.setMinute s.minute.number
  p.setSecond s.second.number

/-- **Reading a stamp records its numbers.** -/
theorem read_chars : seconds.read s.chars = s.record >>= Parts.dateTime := by
  have hdefaults : defaults seconds.tokens = [] := by decide
  have hitems : items seconds.tokens =
      [.field .year, .literal ['-'], .field .month, .literal ['-'], .field .day, .blanks,
        .field .hour, .literal [':'], .field .minute, .literal [':'], .field .second] := by
    decide
  have hchars : s.chars = s.year.chars ++ '-' :: (s.month.chars ++ '-' :: (s.day.chars ++
      ' ' :: (s.hour.chars ++ ':' :: (s.minute.chars ++ ':' :: (s.second.chars ++ []))))) := by
    simp [chars]
  rw [read_of_defaults_eq_nil hdefaults]
  refine congrArg (· >>= Parts.dateTime) ?_
  unfold readAll
  rw [hitems, hchars, readItems_field (f := .year) (fun _ _ => rfl) (takeYear_digits s.year _)]
  simp only [readItems_literal_single, readItems_blank,
    readItems_field (f := .month) (fun _ _ => rfl) (takeField_digits s.month _),
    readItems_field (f := .day) (fun _ _ => rfl) (takeField_digits s.day _),
    readItems_field (f := .hour) (fun _ _ => rfl) (takeField_digits s.hour _),
    readItems_field (f := .minute) (fun _ _ => rfl) (takeField_digits s.minute _),
    readItems_field (f := .second) (fun _ _ => rfl) (takeField_digits s.second _), bind_assoc]
  -- nothing is left of the text after the seconds
  have hend : ∀ p, (readItems p [] [] >>= fun x =>
      if x.2 = [] then .ok x.1 else .error .tooLong) = (pure p : Except Mismatch Parts) :=
    fun _ => rfl
  simp only [hend, bind_pure]
  rfl

/-- What is known when all the numbers of a stamp have been recorded. -/
def recorded : Parts where
  year := some s.year.number
  yearOfCentury := none
  month := some s.month.number
  day := some s.day.number
  weekday := none
  half := some (s.hour.number / 12)
  hourOfHalf := some (s.hour.number % 12)
  minute := some s.minute.number
  second := some s.second.number
  nanos := none

/-- **The numbers are recorded when each of them is within its limits**, which says nothing yet
about the days of the month. -/
theorem record_eq_ok {p : Parts} :
    s.record = .ok p ↔ (1 ≤ s.month.number ∧ s.month.number ≤ 12) ∧
      (1 ≤ s.day.number ∧ s.day.number ≤ 31) ∧ s.hour.number ≤ 23 ∧ s.minute.number ≤ 59 ∧
      s.second.number ≤ 60 ∧ s.recorded = p := by
  have hlt := s.year.number_lt
  have hyear :
      -2 ^ (31 : Nat) ≤ (s.year.number : Int) ∧ (s.year.number : Int) < 2 ^ (31 : Nat) := by
    omega
  -- each number meets a field that was not read before, so only its limits are left
  simp only [record, Parts.setYear, Parts.setMonth, Parts.setDay, Parts.setHour, Parts.setMinute,
    Parts.setSecond, Parts.none, agree, if_pos hyear, bind_eq_ok, within_eq_ok, pure, Except.pure,
    Except.ok.injEq, and_assoc, exists_eq_left', exists_and_left, Nat.zero_le, true_and, recorded]

/-- The clock time that a stamp is read as: second number 60 is the end of second number 59. -/
def settled : DateTime :=
  if s.second.number = 60 then { s.clock with second := 59, nanos := 1000000000 } else s.clock

theorem inRange_date : s.clock.date.InRange := by
  have hlt := s.year.number_lt
  simp only [Date.InRange, Date.firstYear, Date.lastYear, clock]
  omega

theorem recorded_date_eq_ok {d : Date} :
    s.recorded.date = .ok d ↔ s.clock.date.Valid ∧ s.clock.date = d := by
  have hrange := s.inRange_date
  simp only [Parts.date, recorded, Parts.resolveYear, ok_bind, Date.make?]
  by_cases hvalid : s.clock.date.Valid
  · rw [if_pos ⟨hvalid, hrange⟩, and_iff_right hvalid]
    simp [clock]
  · rw [if_neg fun h => hvalid h.1]
    simp [hvalid]

theorem recorded_dateTime_eq_ok {t : DateTime} :
    s.recorded.dateTime = .ok t ↔ s.clock.date.Valid ∧ s.settled = t := by
  have hhour : s.hour.number / 12 * 12 + s.hour.number % 12 = s.hour.number := by omega
  unfold Parts.dateTime
  rw [bind_eq_ok]
  simp only [recorded_date_eq_ok, and_assoc, exists_and_left, exists_eq_left']
  simp only [recorded, hhour, Option.getD_none, settled]
  split <;> simp [clock]

/-- The date of a stamp is in the calendar and its time is within a day, where a minute may have a
second number 60. -/
structure Readable : Prop where
  date : s.clock.date.Valid
  hour : s.clock.hour ≤ 23
  minute : s.clock.minute ≤ 59
  second : s.clock.second ≤ 60

variable {s}

/-- **A stamp is read exactly when it is readable**, and in one way. -/
theorem read_chars_eq_ok {t : DateTime} :
    seconds.read s.chars = .ok t ↔ s.Readable ∧ s.settled = t := by
  rw [read_chars, bind_eq_ok]
  simp only [record_eq_ok, and_assoc, exists_and_left, exists_eq_left', recorded_dateTime_eq_ok]
  constructor
  · rintro ⟨-, -, -, -, hhour, hminute, hsecond, hdate, ht⟩
    exact ⟨⟨hdate, hhour, hminute, hsecond⟩, ht⟩
  · rintro ⟨⟨hdate, hhour, hminute, hsecond⟩, ht⟩
    have hmonth := hdate.month_mem
    have hday := Nat.le_trans hdate.2 (Date.monthLength_le _ _)
    exact ⟨hmonth.1, hmonth.2, hdate.1, hday, hhour, hminute, hsecond, hdate, ht⟩

/-! ## The instant of a stamp -/

/-- Second number 60 counts as the first one of the next minute. -/
theorem millis_settled : s.settled.millis = s.clock.seconds * 1000 := by
  unfold settled
  split <;> simp only [DateTime.millis, DateTime.seconds, clock] <;> omega

/-- The seconds of a readable stamp fit into 64 bits in either precision. -/
theorem Readable.seconds_bounds (h : s.Readable) :
    -8640000000000 ≤ s.clock.seconds ∧ s.clock.seconds ≤ 8640000000000 := by
  obtain ⟨hlow, hhigh⟩ := Date.InRange.dayNumber_bounds h.date s.inRange_date
  obtain ⟨-, hhour, hminute, hsecond⟩ := h
  unfold DateTime.seconds
  omega

/-- **A readable stamp is read as the instant of its numbers.** -/
theorem readMillis_eq_ok {millis : Int64} :
    seconds.readMillis (String.ofList s.chars) = .ok millis ↔
      s.Readable ∧ millis.toInt = s.clock.seconds * 1000 := by
  rw [DatePattern.readMillis_eq_ok, String.toList_ofList]
  simp only [read_chars_eq_ok, and_assoc, exists_and_left, exists_eq_left', millis_settled]
  refine and_congr_right fun hreadable => ?_
  obtain ⟨hlow, hhigh⟩ := hreadable.seconds_bounds
  have hfits : (Int64.ofInt (s.clock.seconds * 1000)).toInt = s.clock.seconds * 1000 :=
    Int64.toInt_ofInt_of_le (by omega) (by omega)
  constructor
  · rintro rfl
    exact hfits
  · exact fun h => Int64.toInt_inj.mp (hfits.trans h.symm)

theorem Readable.valid_clock (h : s.Readable) (hsecond : s.clock.second ≤ 59) :
    s.clock.Valid where
  date := h.date
  range := s.inRange_date
  hour := Nat.lt_succ_of_le h.hour
  minute := Nat.lt_succ_of_le h.minute
  second := Nat.lt_succ_of_le hsecond
  nanos := by simp [clock]

/-- **A stamp is what is written for its instant**, unless its second is number 60. -/
theorem Readable.writeMillis_iff (h : s.Readable) {millis : Int64}
    (hmillis : millis.toInt = s.clock.seconds * 1000) :
    seconds.writeMillis millis = .ok (String.ofList s.chars) ↔ s.clock.second ≤ 59 := by
  rw [writeMillis_eq_ok]
  constructor
  · rintro ⟨t, ht, htext⟩
    obtain ⟨hvalid, hfine, hinstant⟩ := DateTime.ofMillis?_eq_some.mp ht
    have hlimit := hvalid.nanos
    have hnanos : t.nanos = 0 := by
      rw [hmillis] at hinstant
      unfold DateTime.millis at hinstant
      omega
    -- the text is read as the clock time it was written for, which no second number 60 has
    have hread := read_write hvalid (spells_seconds hnanos)
    rw [← String.ofList_injective htext] at hread
    obtain ⟨-, hsettled⟩ := read_chars_eq_ok.mp hread
    refine Nat.le_of_not_lt fun hlate => ?_
    have hleap : s.second.number = 60 := Nat.le_antisymm h.second hlate
    rw [← hsettled, settled, if_pos hleap] at hlimit
    exact absurd hlimit (Nat.lt_irrefl _)
  · intro hsecond
    have hclock : DateTime.ofMillis? millis.toInt = some s.clock := by
      rw [DateTime.ofMillis?_eq_some, hmillis]
      exact ⟨h.valid_clock hsecond, by simp [clock], by simp [DateTime.millis, clock]⟩
    exact ⟨s.clock, hclock, congrArg String.ofList s.chars_eq_write⟩

end Stamp

end Lakehouse
