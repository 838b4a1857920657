import Lakehouse.Calendar.DatePattern.Reader
import Lakehouse.Proofs.Calendar.Date
import Lakehouse.Proofs.Number.Numeral
import Lakehouse.Proofs.Text.Blank

/-!
# Reading one field of a date

A field that was written for a clock time is read as what that time says, whatever stands behind
it, and the text behind it is left over.

* `DatePattern.Parts.told`: what is known of a clock time after some of its fields were read.
* `DatePattern.Field.Exact`: when a field says what it stands for, and where it ends.
* `DatePattern.Field.read_write`: reading an exact field adds it to what is known.
-/

namespace Lakehouse

/-- A clock time of the calendar: the date exists, and the time is within a day. -/
structure DateTime.Valid (t : DateTime) : Prop where
  date : t.date.Valid
  range : t.date.InRange
  hour : t.hour < 24
  minute : t.minute < 60
  second : t.second < 60
  nanos : t.nanos < 1000000000

namespace DatePattern

/-! ## What is known -/

/-- A value that is told by any of some fields, if one of them was read. -/
def tell {α : Type} (fs among : List Field) (x : α) : Option α :=
  if among.any (· ∈ fs) then some x else none

/-- What is known of a clock time when these fields of it were read. -/
def Parts.told (t : DateTime) (fs : List Field) : Parts where
  year := tell fs [.year] t.date.year
  yearOfCentury := tell fs [.yearOfCentury] (t.date.year % 100).toNat
  month := tell fs [.month, .monthShort, .monthName] t.date.month
  day := tell fs [.day] t.date.day
  weekday := tell fs [.weekdayShort, .weekdayName] t.date.weekday
  half := tell fs [.hour, .half] (t.hour / 12)
  hourOfHalf := tell fs [.hour, .hourOfHalf] (t.hour % 12)
  minute := tell fs [.minute] t.minute
  second := tell fs [.second] t.second
  nanos := tell fs [.fraction 3, .fraction 6, .fraction 9] t.nanos

theorem Parts.told_nil (t : DateTime) : Parts.told t [] = Parts.none := rfl

/-- What is known is never contradicted. -/
theorem agree_tell {α : Type} [DecidableEq α] (fs among : List Field) (x : α) :
    agree (tell fs among x) x = .ok (some x) := by
  unfold tell
  split <;> simp [agree]

theorem tell_eq_some {α : Type} {fs among : List Field} {f : Field} (hf : f ∈ among)
    (hread : f ∈ fs) (x : α) : tell fs among x = some x := by
  unfold tell
  exact if_pos (List.any_eq_true.mpr ⟨f, hf, decide_eq_true hread⟩)

theorem within_eq {low high n : Nat} (h : low ≤ n ∧ n ≤ high) : within low high n = .ok n :=
  if_pos h

theorem within_eq_ok {low high n m : Nat} :
    within low high n = .ok m ↔ n = m ∧ low ≤ n ∧ n ≤ high := by
  unfold within
  split <;> simp [*]

/-! ## Numbers -/

/-- **Digits are taken as their number**, either as many as were asked for, or up to a character
that is no digit. -/
theorem takeNumber_append {ds : List Char} (rest : List Char) {width : Nat} (hne : ds ≠ [])
    (hdigits : ∀ c ∈ ds, c.isDigit = true) (hvalue : Nat.ofDigitChars 10 ds 0 < 2 ^ (63 : Nat))
    (hend : ds.length = width ∨
      (ds.length ≤ width ∧ ∀ c ∈ rest.head?, c.isDigit = false)) :
    takeNumber width (ds ++ rest) = .ok (Nat.ofDigitChars 10 ds 0, rest) := by
  have htaken : ((ds ++ rest).take width).takeWhile Char.isDigit = ds := by
    rcases hend with hwidth | ⟨hwidth, hstop⟩
    · rw [List.take_left' hwidth]
      rw [← List.append_nil ds, List.takeWhile_append_of_pos hdigits]
      rfl
    · rw [List.take_append, List.take_of_length_le hwidth,
        List.takeWhile_append_of_pos hdigits]
      cases rest with
      | nil => simp
      | cons c cs =>
        have hc : c.isDigit = false := hstop c rfl
        cases hleft : width - ds.length with
        | zero => simp
        | succ n => simp [hc]
  unfold takeNumber
  rw [if_neg (List.append_ne_nil_of_left_ne_nil hne rest)]
  simp only [htaken]
  rw [if_neg hne, if_pos hvalue, List.drop_left]

/-- Leading zeros are taken with the number. -/
theorem takeNumber_padded {zeros n : Nat} (rest : List Char) {width : Nat}
    (hvalue : n < 2 ^ (63 : Nat))
    (hend : (Numeral.padded zeros n).length = width ∨
      ((Numeral.padded zeros n).length ≤ width ∧ ∀ c ∈ rest.head?, c.isDigit = false)) :
    takeNumber width (Numeral.padded zeros n ++ rest) = .ok (n, rest) := by
  have hnumber := takeNumber_append rest (Numeral.padded_ne_nil zeros n)
    (fun c hc => Numeral.isDigit_of_mem_padded hc)
    (by rw [Numeral.ofDigitChars_padded]; exact hvalue) hend
  rwa [Numeral.ofDigitChars_padded] at hnumber

/-- A number with leading zeros is taken at its width. -/
theorem takeField_padded {width n : Nat} (hwidth : 0 < width) (hn : n < 10 ^ width)
    (hvalue : n < 2 ^ (63 : Nat)) (rest : List Char) :
    takeField width (Numeral.padded width n ++ rest) = .ok (n, rest) := by
  have hnumber := takeNumber_padded rest hvalue (.inl (Numeral.length_padded hwidth hn))
  unfold takeField
  obtain ⟨c, cs, hcs, hc⟩ := Numeral.padded_eq_cons width n
  rw [hcs] at hnumber ⊢
  rw [List.cons_append, Text.dropBlanks_cons _ (Text.isBlank_of_isDigit hc)]
  exact hnumber

/-- A number of at most two digits is taken as it was written. -/
theorem takeField_two {n : Nat} (hn : n < 100) (rest : List Char) :
    takeField 2 (Numeral.padded 2 n ++ rest) = .ok (n, rest) :=
  takeField_padded (by omega) (by omega) (by omega) rest

/-- A year says where it ends: by its four digits, or by what stands behind it. -/
def YearApart (year : Int) (rest : List Char) : Prop :=
  (0 ≤ year ∧ year ≤ 9999) ∨ ∀ c ∈ rest.head?, c.isDigit = false

/-- **A year is taken as it was written**, also with a sign and with more than four digits. -/
theorem takeYear_yearChars {year : Int} {rest : List Char} (hyear : year.natAbs < 2 ^ (63 : Nat))
    (hapart : YearApart year rest) : takeYear (Date.yearChars year ++ rest) = .ok (year, rest) := by
  unfold takeYear Date.yearChars
  by_cases hplain : 0 ≤ year ∧ year ≤ 9999
  · rw [if_pos hplain]
    have hlength : (Numeral.padded 4 year.natAbs).length = 4 :=
      Numeral.length_padded (by omega) (by omega)
    have hnumber := takeNumber_padded rest hyear (.inl hlength)
    obtain ⟨c, cs, hcs, hc⟩ := Numeral.padded_eq_cons 4 year.natAbs
    have hminus : c ≠ '-' := fun h => absurd (h ▸ hc) (by decide)
    have hplus : c ≠ '+' := fun h => absurd (h ▸ hc) (by decide)
    have habs : (year.natAbs : Int) = year := by omega
    rw [hcs] at hnumber ⊢
    rw [List.cons_append, Text.dropBlanks_cons _ (Text.isBlank_of_isDigit hc)]
    rw [List.cons_append] at hnumber
    split
    · rename_i heq
      exact absurd (List.cons.inj heq).1 hminus
    · rename_i heq
      exact absurd (List.cons.inj heq).1 hplus
    · rw [hnumber]
      exact congrArg (fun y => Except.ok (y, rest)) habs
  · have hstop := hapart.resolve_left hplain
    have hlength : (Numeral.padded 4 year.natAbs).length ≤
        (Numeral.padded 4 year.natAbs ++ rest).length := by
      rw [List.length_append]
      exact Nat.le_add_right _ _
    have hnumber := takeNumber_padded rest hyear (.inr ⟨hlength, hstop⟩)
    rw [if_neg hplain, List.cons_append]
    by_cases hneg : year < 0
    · have habs : -(year.natAbs : Int) = year := by omega
      rw [if_pos hneg, Text.dropBlanks_cons _ (by decide)]
      simp only
      rw [hnumber]
      exact congrArg (fun y => Except.ok (y, rest)) habs
    · have habs : (year.natAbs : Int) = year := by omega
      rw [if_neg hneg, Text.dropBlanks_cons _ (by decide)]
      simp only
      rw [hnumber]
      exact congrArg (fun y => Except.ok (y, rest)) habs

/-! ## Fractions and words -/

theorem length_le_byteCount (cs : List Char) : cs.length ≤ byteCount cs := by
  induction cs with
  | nil => exact Nat.le_refl 0
  | cons c cs ih =>
    have hpos := c.utf8Size_pos
    unfold byteCount at ih ⊢
    rw [List.flatMap_cons, List.length_append, String.length_utf8EncodeChar, List.length_cons]
    omega

/-- A fraction is taken at its width. -/
theorem takeDigits_eq_ok {width n : Nat} {cs rest : List Char} :
    takeDigits width cs = .ok (n, rest) ↔ width ≤ byteCount cs ∧
      (∀ c ∈ cs.take width, c.isDigit = true) ∧
      Nat.ofDigitChars 10 (cs.take width) 0 = n ∧ cs.drop width = rest := by
  unfold takeDigits
  rw [ite_error_eq_ok, ite_else_error_eq_ok, Nat.not_lt, List.all_eq_true, Except.ok.injEq,
    Prod.mk.injEq]

theorem takeDigits_padded {width n : Nat} (hwidth : 0 < width) (hn : n < 10 ^ width)
    (rest : List Char) : takeDigits width (Numeral.padded width n ++ rest) = .ok (n, rest) := by
  have hlength := Numeral.length_padded hwidth hn
  have hbytes := length_le_byteCount (Numeral.padded width n ++ rest)
  rw [List.length_append] at hbytes
  rw [takeDigits_eq_ok, List.take_left' hlength, List.drop_left' hlength]
  exact ⟨by omega, fun c hc => Numeral.isDigit_of_mem_padded hc,
    Numeral.ofDigitChars_padded .., rfl⟩

/-- Names that are told apart by their first three letters. -/
structure Distinct (names : List String) : Prop where
  length : ∀ i < names.length, 3 ≤ (nameAt names i).length
  find : ∀ i < names.length,
    (names.findIdx? fun name => Text.sameChars (name.toList.take 3) ((nameAt names i).take 3))
      = some i

theorem distinct_monthNames : Distinct monthNames := ⟨by decide, by decide⟩

theorem distinct_weekdayNames : Distinct weekdayNames := ⟨by decide, by decide⟩

/-- **A name is found by its first three letters.** -/
theorem takeShortName_take {names : List String} (h : Distinct names) {i : Nat}
    (hi : i < names.length) (rest : List Char) :
    takeShortName names ((nameAt names i).take 3 ++ rest) = .ok (i, rest) := by
  have hlength : ((nameAt names i).take 3).length = 3 := by
    rw [List.length_take]
    have := h.length i hi
    omega
  have hbytes := length_le_byteCount ((nameAt names i).take 3 ++ rest)
  rw [List.length_append] at hbytes
  unfold takeShortName
  rw [if_neg (by omega), List.take_left' hlength, List.drop_left' hlength, h.find i hi]

/-- A name that was written out is taken entirely. -/
theorem takeLongName_nameAt {names : List String} (h : Distinct names) {i : Nat}
    (hi : i < names.length) (rest : List Char) :
    takeLongName names (nameAt names i ++ rest) = .ok (i, rest) := by
  have hsplit : nameAt names i ++ rest =
      (nameAt names i).take 3 ++ ((nameAt names i).drop 3 ++ rest) := by
    rw [← List.append_assoc, List.take_append_drop]
  unfold takeLongName
  rw [hsplit, takeShortName_take h hi]
  simp only [bind, Except.bind]
  rw [List.take_left, List.drop_left, if_pos (by simp [Text.sameChars])]
  rfl

theorem takeHalf_append {hour : Nat} (h : hour < 24) (rest : List Char) :
    takeHalf ((if hour < 12 then ['A', 'M'] else ['P', 'M']) ++ rest) = .ok (hour / 12, rest) := by
  by_cases hnoon : hour < 12
  · rw [if_pos hnoon, show hour / 12 = 0 by omega]
    have hbytes := length_le_byteCount (['A', 'M'] ++ rest)
    rw [List.length_append, List.length_cons, List.length_cons] at hbytes
    unfold takeHalf
    rw [if_neg (by omega)]
    rfl
  · rw [if_neg hnoon, show hour / 12 = 1 by omega]
    have hbytes := length_le_byteCount (['P', 'M'] ++ rest)
    rw [List.length_append, List.length_cons, List.length_cons] at hbytes
    unfold takeHalf
    rw [if_neg (by omega)]
    rfl

/-! ## Fields -/

/-- A field adds what it tells. -/
theorem tell_append {α : Type} (fs among : List Field) (f : Field) (x : α) :
    tell (fs ++ [f]) among x = if f ∈ among then some x else tell fs among x := by
  unfold tell
  by_cases hf : f ∈ among
  · rw [if_pos hf, if_pos (List.any_eq_true.mpr ⟨f, hf, by simp⟩)]
  · have hsame : among.any (· ∈ fs ++ [f]) = among.any (· ∈ fs) := by
      rw [Bool.eq_iff_iff]
      simp only [List.any_eq_true, decide_eq_true_eq, List.mem_append, List.mem_singleton]
      constructor
      · rintro ⟨g, hg, hread | rfl⟩
        · exact ⟨g, hg, hread⟩
        · exact absurd hg hf
      · rintro ⟨g, hg, hread⟩
        exact ⟨g, hg, .inl hread⟩
    rw [if_neg hf, hsame]

namespace Parts

variable {t : DateTime} (fs : List Field)

theorem setYear_told (ht : t.date.InRange) :
    (told t fs).setYear t.date.year = .ok (told t (fs ++ [.year])) := by
  obtain ⟨hfirst, hlast⟩ := ht
  unfold Date.firstYear at hfirst
  unfold Date.lastYear at hlast
  unfold setYear
  rw [if_pos (by omega)]
  simp [told, agree_tell, tell_append, bind, Except.bind, pure, Except.pure]

theorem setYearOfCentury_told :
    (told t fs).setYearOfCentury (t.date.year % 100).toNat =
      .ok (told t (fs ++ [.yearOfCentury])) := by
  simp [setYearOfCentury, told, agree_tell, tell_append, bind, Except.bind, pure, Except.pure]

/-- The month is told by each of the fields that name it. -/
theorem setMonth_told (ht : t.date.Valid) {f : Field}
    (hf : f = .month ∨ f = .monthShort ∨ f = .monthName) :
    (told t fs).setMonth t.date.month = .ok (told t (fs ++ [f])) := by
  unfold setMonth
  rw [within_eq ht.month_mem]
  rcases hf with rfl | rfl | rfl <;>
    simp [told, agree_tell, tell_append, bind, Except.bind, pure, Except.pure]

theorem setDay_told (ht : t.date.Valid) :
    (told t fs).setDay t.date.day = .ok (told t (fs ++ [.day])) := by
  unfold setDay
  rw [within_eq ⟨ht.1, Nat.le_trans ht.2 (Date.monthLength_le _ _)⟩]
  simp [told, agree_tell, tell_append, bind, Except.bind, pure, Except.pure]

/-- The day of the week is told by its name and by the short form of it. -/
theorem setWeekday_told {f : Field} (hf : f = .weekdayShort ∨ f = .weekdayName) :
    (told t fs).setWeekday t.date.weekday = .ok (told t (fs ++ [f])) := by
  rcases hf with rfl | rfl <;>
    simp [setWeekday, told, agree_tell, tell_append, bind, Except.bind, pure, Except.pure]

theorem setHalf_told : (told t fs).setHalf (t.hour / 12) = .ok (told t (fs ++ [.half])) := by
  simp [setHalf, told, agree_tell, tell_append, bind, Except.bind, pure, Except.pure]

/-- Twelve is read as the hour zero of its half. -/
theorem setHourOfHalf_told :
    (told t fs).setHourOfHalf (if t.hour % 12 = 0 then 12 else t.hour % 12) =
      .ok (told t (fs ++ [.hourOfHalf])) := by
  have hhour : (if t.hour % 12 = 0 then 12 else t.hour % 12) % 12 = t.hour % 12 := by
    split <;> omega
  unfold setHourOfHalf
  rw [within_eq (by split <;> omega)]
  simp [hhour, told, agree_tell, tell_append, bind, Except.bind, pure, Except.pure]

/-- The hour of the day tells its half and the hour of that half. -/
theorem setHour_told (ht : t.hour < 24) :
    (told t fs).setHour t.hour = .ok (told t (fs ++ [.hour])) := by
  unfold setHour
  rw [within_eq ⟨Nat.zero_le _, by omega⟩]
  simp [told, agree_tell, tell_append, bind, Except.bind, pure, Except.pure]

theorem setMinute_told (ht : t.minute < 60) :
    (told t fs).setMinute t.minute = .ok (told t (fs ++ [.minute])) := by
  unfold setMinute
  rw [within_eq ⟨Nat.zero_le _, by omega⟩]
  simp [told, agree_tell, tell_append, bind, Except.bind, pure, Except.pure]

theorem setSecond_told (ht : t.second < 60) :
    (told t fs).setSecond t.second = .ok (told t (fs ++ [.second])) := by
  unfold setSecond
  rw [within_eq ⟨Nat.zero_le _, by omega⟩]
  simp [told, agree_tell, tell_append, bind, Except.bind, pure, Except.pure]

theorem setNanos_told {digits : Nat} (hdigits : digits = 3 ∨ digits = 6 ∨ digits = 9) :
    (told t fs).setNanos t.nanos = .ok (told t (fs ++ [.fraction digits])) := by
  rcases hdigits with rfl | rfl | rfl <;>
    simp [setNanos, told, agree_tell, tell_append, bind, Except.bind, pure, Except.pure]

end Parts

/-- Whether a field of a clock time, written in front of `rest`, says what it stands for and where
it ends. -/
def Field.Exact (t : DateTime) (rest : List Char) : Field → Prop
  | year => YearApart t.date.year rest
  | fraction digits =>
    (digits = 3 ∨ digits = 6 ∨ digits = 9) ∧ t.nanos % 10 ^ (9 - digits) = 0
  | _ => True

/-- The first digits of the nanoseconds say all of them when the others are zeros. -/
theorem takeDigits_nanos {t : DateTime} {digits : Nat} (ht : t.nanos < 1000000000)
    (hdigits : digits = 3 ∨ digits = 6 ∨ digits = 9) (hzeros : t.nanos % 10 ^ (9 - digits) = 0)
    (rest : List Char) :
    ∃ n, takeDigits digits ((Field.fraction digits).write t ++ rest) = .ok (n, rest) ∧
      n * 10 ^ (9 - digits) = t.nanos := by
  have hpow : 10 ^ digits * 10 ^ (9 - digits) = 1000000000 := by
    rcases hdigits with rfl | rfl | rfl <;> rfl
  have hlt : t.nanos / 10 ^ (9 - digits) < 10 ^ digits :=
    Nat.div_lt_of_lt_mul (by rw [Nat.mul_comm, hpow]; exact ht)
  refine ⟨t.nanos / 10 ^ (9 - digits), ?_, Nat.div_mul_cancel (Nat.dvd_of_mod_eq_zero hzeros)⟩
  simp only [Field.write, Nat.mod_eq_of_lt ht]
  exact takeDigits_padded (by omega) hlt rest

/-- **A field that was written is read as what the clock time says.** -/
theorem Field.read_write {t : DateTime} (ht : t.Valid) {f : Field} {rest : List Char}
    (hf : f.Exact t rest) (fs : List Field) :
    f.read (Parts.told t fs) (f.write t ++ rest) = .ok (Parts.told t (fs ++ [f]), rest) := by
  have hmonth := ht.date.month_mem
  have hday := ht.date.2
  have hlength := Date.monthLength_le t.date.year t.date.month
  obtain ⟨hvalid, hrange, hhour, hminute, hsecond, hnanos⟩ := ht
  cases f with
  | year =>
    have hyear : t.date.year.natAbs < 2 ^ (63 : Nat) := by
      have hbounds := hrange
      unfold Date.InRange Date.firstYear Date.lastYear at hbounds
      omega
    simp only [read, write, takeYear_yearChars hyear hf, bind, Except.bind,
      Parts.setYear_told fs hrange]
    rfl
  | yearOfCentury =>
    simp only [read, write, takeField_two (show (t.date.year % 100).toNat < 100 by omega) rest,
      bind, Except.bind, Parts.setYearOfCentury_told]
    rfl
  | month =>
    simp only [read, write, takeField_two (show t.date.month < 100 by omega) rest,
      bind, Except.bind, Parts.setMonth_told fs hvalid (.inl rfl)]
    rfl
  | monthShort =>
    simp only [read, write, takeShortName_take distinct_monthNames
      (show t.date.month - 1 < 12 by omega) rest, bind, Except.bind,
      Nat.sub_add_cancel hmonth.1, Parts.setMonth_told fs hvalid (.inr (.inl rfl))]
    rfl
  | monthName =>
    simp only [read, write, takeLongName_nameAt distinct_monthNames
      (show t.date.month - 1 < 12 by omega) rest, bind, Except.bind,
      Nat.sub_add_cancel hmonth.1, Parts.setMonth_told fs hvalid (.inr (.inr rfl))]
    rfl
  | day =>
    simp only [read, write, takeField_two (show t.date.day < 100 by omega) rest,
      bind, Except.bind, Parts.setDay_told fs hvalid]
    rfl
  | hour =>
    simp only [read, write, takeField_two (show t.hour < 100 by omega) rest,
      bind, Except.bind, Parts.setHour_told fs hhour]
    rfl
  | hourOfHalf =>
    have hhalf : (if t.hour % 12 = 0 then 12 else t.hour % 12) < 100 := by split <;> omega
    simp only [read, write, takeField_two hhalf rest, bind, Except.bind,
      Parts.setHourOfHalf_told]
    rfl
  | minute =>
    simp only [read, write, takeField_two (show t.minute < 100 by omega) rest,
      bind, Except.bind, Parts.setMinute_told fs hminute]
    rfl
  | second =>
    simp only [read, write, takeField_two (show t.second < 100 by omega) rest,
      bind, Except.bind, Parts.setSecond_told fs hsecond]
    rfl
  | fraction digits =>
    obtain ⟨n, htake, hn⟩ := takeDigits_nanos hnanos hf.1 hf.2 rest
    simp only [read, htake, hn, bind, Except.bind, Parts.setNanos_told fs hf.1]
    rfl
  | half =>
    simp only [read, write, takeHalf_append hhour rest, bind, Except.bind, Parts.setHalf_told]
    rfl
  | weekdayShort =>
    simp only [read, write, takeShortName_take distinct_weekdayNames
      (Date.weekday_lt t.date) rest, bind, Except.bind, Parts.setWeekday_told fs (.inl rfl)]
    rfl
  | weekdayName =>
    simp only [read, write, takeLongName_nameAt distinct_weekdayNames
      (Date.weekday_lt t.date) rest, bind, Except.bind, Parts.setWeekday_told fs (.inr rfl)]
    rfl

/-! ## The characters of fields -/

/-- A character that a field of a date may be written with: a letter, a digit, or a sign. -/
def isPlain (c : Char) : Bool := c.isAlphanum || c == '-' || c == '+'

theorem isPlain_of_isDigit {c : Char} (h : c.isDigit = true) : isPlain c = true := by
  simp [isPlain, Char.isAlphanum, h]

theorem isBlank_of_isPlain {c : Char} (h : isPlain c = true) : Text.isBlank c = false := by
  simp only [isPlain, Char.isAlphanum, Bool.or_eq_true, beq_iff_eq] at h
  rcases h with ((halpha | hdigit) | rfl) | rfl
  · exact Text.isBlank_of_isAlpha halpha
  · exact Text.isBlank_of_isDigit hdigit
  · rfl
  · rfl

theorem isPlain_of_mem_yearChars {year : Int} {c : Char} (h : c ∈ Date.yearChars year) :
    isPlain c = true := by
  have hdigits : c ∈ Numeral.padded 4 year.natAbs → isPlain c = true := fun hc =>
    isPlain_of_isDigit (Numeral.isDigit_of_mem_padded hc)
  unfold Date.yearChars at h
  split at h
  · exact hdigits h
  · rcases List.mem_cons.mp h with rfl | hc
    · split <;> rfl
    · exact hdigits hc

theorem isPlain_of_mem_nameAt {names : List String}
    (hnames : names.all (·.toList.all isPlain) = true) {i : Nat} {c : Char}
    (h : c ∈ nameAt names i) : isPlain c = true := by
  unfold nameAt at h
  cases hname : names[i]? with
  | none =>
    rw [hname] at h
    simp at h
  | some name =>
    rw [hname] at h
    have hname := List.all_eq_true.mp hnames name (List.mem_of_getElem? hname)
    exact List.all_eq_true.mp hname c h

/-- **Fields are written with letters, digits and signs.** -/
theorem Field.isPlain_of_mem_write {t : DateTime} {f : Field} {c : Char} (h : c ∈ f.write t) :
    isPlain c = true := by
  have hmonths : monthNames.all (·.toList.all isPlain) = true := by decide
  have hdays : weekdayNames.all (·.toList.all isPlain) = true := by decide
  cases f with
  | year => exact isPlain_of_mem_yearChars h
  | monthShort => exact isPlain_of_mem_nameAt hmonths (List.mem_of_mem_take h)
  | monthName => exact isPlain_of_mem_nameAt hmonths h
  | weekdayShort => exact isPlain_of_mem_nameAt hdays (List.mem_of_mem_take h)
  | weekdayName => exact isPlain_of_mem_nameAt hdays h
  | half =>
    have hwords : ∀ c ∈ ['A', 'M', 'P', 'M'], isPlain c = true :=
      List.all_eq_true.mp (by decide)
    simp only [write] at h
    split at h
    · exact hwords c (List.mem_append_left ['P', 'M'] h)
    · exact hwords c (List.mem_append_right ['A', 'M'] h)
  | yearOfCentury | month | day | hour | hourOfHalf | minute | second | fraction =>
    exact isPlain_of_isDigit (Numeral.isDigit_of_mem_padded h)

/-- A field of a clock time is not written as an empty text. -/
theorem Field.write_ne_nil {t : DateTime} (ht : t.date.Valid) (f : Field) : f.write t ≠ [] := by
  have hmonth := distinct_monthNames.length (t.date.month - 1)
    (show t.date.month - 1 < 12 by have := ht.month_mem; omega)
  have hday := distinct_weekdayNames.length t.date.weekday (Date.weekday_lt t.date)
  cases f with
  | year =>
    simp only [write, Date.yearChars]
    split
    · exact Numeral.padded_ne_nil _ _
    · exact List.cons_ne_nil _ _
  | monthShort | monthName | weekdayShort | weekdayName =>
    simp only [write, ne_eq, ← List.length_eq_zero_iff, List.length_take]
    omega
  | half =>
    simp only [write]
    split <;> exact List.cons_ne_nil _ _
  | yearOfCentury | month | day | hour | hourOfHalf | minute | second | fraction =>
    exact Numeral.padded_ne_nil _ _

end DatePattern

end Lakehouse
