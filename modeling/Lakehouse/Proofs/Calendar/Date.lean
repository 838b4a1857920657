import Lakehouse.Calendar.Date

/-!
# Days and dates

Counting days and naming dates are inverse to each other.

* `Date.splitYear_spec`, `Date.splitMonth_spec`: a day falls into one year and one month.
* `Date.valid_ofDayNumber`, `Date.dayNumber_ofDayNumber`: every day has a date, and the date has
  that day.
* `Date.ofDayNumber_dayNumber`: a date of the calendar is the date of its day.
-/

namespace Lakehouse.Date

/-! ## Years -/

/-- The days of a year. -/
def yearLength (year : Int) : Nat := if isLeap year then 366 else 365

theorem isLeap_iff (year : Int) :
    isLeap year = true ↔ year % 4 = 0 ∧ (year % 100 ≠ 0 ∨ year % 400 = 0) := by
  unfold isLeap
  rw [Bool.and_eq_true, Bool.or_eq_true, beq_iff_eq, bne_iff_ne, beq_iff_eq]

theorem daysBeforeYear_eq (year : Int) :
    daysBeforeYear year =
      365 * (year - 1) + (year - 1) / 4 - (year - 1) / 100 + (year - 1) / 400 := rfl

theorem daysBeforeYear_succ (year : Int) :
    daysBeforeYear (year + 1) = daysBeforeYear year + yearLength year := by
  rw [daysBeforeYear_eq, daysBeforeYear_eq]
  unfold yearLength
  by_cases h : isLeap year = true
  · rw [if_pos h]
    rw [isLeap_iff] at h
    omega
  · rw [if_neg h]
    rw [isLeap_iff] at h
    omega

theorem daysBeforeYear_mono {a b : Int} (h : a ≤ b) : daysBeforeYear a ≤ daysBeforeYear b := by
  rw [daysBeforeYear_eq, daysBeforeYear_eq]
  omega

/-- **A day falls into one year.** -/
theorem splitYear_spec (n : Int) :
    daysBeforeYear (splitYear n).1 + (splitYear n).2 = n ∧
      (splitYear n).2 < yearLength (splitYear n).1 := by
  unfold splitYear
  simp only
  generalize hcycle : (n % 146097).toNat = inCycle
  generalize hcentury : min (inCycle / 36524) 3 = century
  generalize hrest : inCycle - century * 36524 = inCentury
  generalize hfour : inCentury % 1461 = inFour
  generalize hspans : inCentury / 1461 = spans
  generalize hlast : min (inFour / 365) 3 = last
  have hspan : 1461 * spans + inFour = inCentury := by omega
  have hbounds : century ≤ 3 ∧ spans ≤ 24 ∧ last ≤ 3 := by omega
  generalize hyears : 100 * century + 4 * spans + last = years
  have hyear : 400 * (n / 146097) + 100 * (century : Int) + 4 * (spans : Int) + (last : Int) + 1 - 1
      = 400 * (n / 146097) + (years : Int) := by omega
  -- the leap years among the years before are counted by the places of cycle, century and span
  have hquarter : (400 * (n / 146097) + (years : Int)) / 4
      = 100 * (n / 146097) + 25 * century + spans := by omega
  have hhundredth : (400 * (n / 146097) + (years : Int)) / 100
      = 4 * (n / 146097) + century := by omega
  have hcycles : (400 * (n / 146097) + (years : Int)) / 400 = n / 146097 := by omega
  refine ⟨by rw [daysBeforeYear_eq, hyear, hquarter, hhundredth, hcycles]; omega, ?_⟩
  unfold yearLength
  by_cases hday : inFour - last * 365 < 365
  · split <;> omega
  · -- only the last year of four has one day more, and it is a leap year
    rw [if_pos ((isLeap_iff _).mpr (by omega))]
    omega

/-! ## Months -/

theorem monthLength_eq_zero {year : Int} {m : Nat} (h : m = 0 ∨ 13 ≤ m) :
    monthLength year m = 0 := by
  unfold monthLength
  split <;> omega

theorem monthLength_le (year : Int) (m : Nat) : monthLength year m ≤ 31 := by
  unfold monthLength
  split
  case h_12 => split <;> omega
  all_goals omega

theorem daysBeforeMonth_one (year : Int) : daysBeforeMonth year 1 = 0 := rfl

/-- The months of a year together have its days. -/
theorem daysBeforeMonth_thirteen (year : Int) : daysBeforeMonth year 13 = yearLength year := by
  unfold yearLength
  simp only [daysBeforeMonth, monthLength]
  by_cases h : isLeap year = true
  · rw [if_pos h, if_pos h]
  · rw [if_neg h, if_neg h]

theorem daysBeforeMonth_mono (year : Int) {a b : Nat} (h : a ≤ b) :
    daysBeforeMonth year a ≤ daysBeforeMonth year b := by
  induction b with
  | zero => exact Nat.le_of_eq (congrArg _ (Nat.le_zero.mp h))
  | succ b ih =>
    rcases Nat.lt_or_ge b a with hlt | hle
    · exact Nat.le_of_eq (congrArg _ (Nat.le_antisymm h hlt))
    · exact Nat.le_trans (ih hle) (Nat.le_add_right _ _)

/-- **A day of the year falls into one month**, counted from a month on. -/
theorem splitMonth_spec (year : Int) (k : Nat) {m n : Nat} (hm : m + k = 13)
    (hn : daysBeforeMonth year m + n < daysBeforeMonth year 13) :
    let s := splitMonth year (List.range' m k) n
    daysBeforeMonth year s.1 + (s.2 - 1) = daysBeforeMonth year m + n ∧
      1 ≤ s.2 ∧ s.2 ≤ monthLength year s.1 := by
  induction k generalizing m n with
  | zero =>
    rw [show m = 13 by omega] at hn
    omega
  | succ k ih =>
    rw [List.range'_succ]
    simp only [splitMonth]
    by_cases h : n < monthLength year m
    · rw [if_pos h]
      exact ⟨rfl, Nat.succ_le_succ (Nat.zero_le n), h⟩
    · rw [if_neg h]
      have hstep : daysBeforeMonth year (m + 1) + (n - monthLength year m) =
          daysBeforeMonth year m + n := by
        rw [daysBeforeMonth]
        omega
      have hrest := ih (by omega) (hstep ▸ hn)
      rw [hstep] at hrest
      exact hrest

/-! ## Days of the year -/

/-- The days of the year before a date. -/
def dayOfYear (d : Date) : Nat := daysBeforeMonth d.year d.month + (d.day - 1)

theorem Valid.month_mem {d : Date} (h : d.Valid) : 1 ≤ d.month ∧ d.month ≤ 12 := by
  obtain ⟨hday, hle⟩ := h
  by_cases hm : d.month = 0 ∨ 13 ≤ d.month
  · rw [monthLength_eq_zero hm] at hle
    omega
  · omega

theorem Valid.dayOfYear_lt_next {d : Date} (h : d.Valid) :
    d.dayOfYear < daysBeforeMonth d.year (d.month + 1) := by
  obtain ⟨hday, hle⟩ := h
  unfold dayOfYear
  rw [daysBeforeMonth]
  omega

theorem Valid.dayOfYear_lt {d : Date} (h : d.Valid) : d.dayOfYear < yearLength d.year := by
  rw [← daysBeforeMonth_thirteen]
  exact Nat.lt_of_lt_of_le h.dayOfYear_lt_next
    (daysBeforeMonth_mono _ (Nat.succ_le_succ h.month_mem.2))

theorem Valid.dayNumber_eq {d : Date} (h : d.Valid) :
    d.dayNumber = daysBeforeYear d.year + d.dayOfYear - epoch := by
  have := h.1
  unfold dayNumber dayOfYear
  omega

/-! ## Dates and days -/

/-- The date of a day, taken apart. -/
theorem ofDayNumber_spec (n : Int) :
    (ofDayNumber n).Valid ∧ (ofDayNumber n).year = (splitYear (n + epoch)).1 ∧
      (ofDayNumber n).dayOfYear = (splitYear (n + epoch)).2 := by
  obtain ⟨-, hlt⟩ := splitYear_spec (n + epoch)
  rw [← daysBeforeMonth_thirteen] at hlt
  obtain ⟨hsum, hpos, hle⟩ := splitMonth_spec (splitYear (n + epoch)).1 12 (m := 1) rfl
    (by rw [daysBeforeMonth_one, Nat.zero_add]; exact hlt)
  rw [daysBeforeMonth_one, Nat.zero_add] at hsum
  exact ⟨⟨hpos, hle⟩, rfl, hsum⟩

theorem valid_ofDayNumber (n : Int) : (ofDayNumber n).Valid := (ofDayNumber_spec n).1

/-- **Every day has a date, and the date has that day.** -/
theorem dayNumber_ofDayNumber (n : Int) : (ofDayNumber n).dayNumber = n := by
  obtain ⟨hvalid, hyear, hday⟩ := ofDayNumber_spec n
  rw [hvalid.dayNumber_eq, hyear, hday, (splitYear_spec (n + epoch)).1]
  omega

/-- The year of a day is told from where its days begin and end. -/
theorem year_le_of_dayNumber_le {d e : Date} (hd : d.Valid) (he : e.Valid)
    (h : d.dayNumber ≤ e.dayNumber) : d.year ≤ e.year := by
  rw [hd.dayNumber_eq, he.dayNumber_eq] at h
  refine Int.not_lt.mp fun hlt => ?_
  have hmono := daysBeforeYear_mono (show e.year + 1 ≤ d.year by omega)
  have hlast := he.dayOfYear_lt
  rw [daysBeforeYear_succ] at hmono
  omega

theorem month_le_of_dayOfYear_le {d e : Date} (he : e.Valid) (hyear : d.year = e.year)
    (h : d.dayOfYear ≤ e.dayOfYear) : d.month ≤ e.month := by
  refine Nat.not_lt.mp fun hlt => ?_
  have hmono := daysBeforeMonth_mono e.year (show e.month + 1 ≤ d.month by omega)
  have hnext := he.dayOfYear_lt_next
  unfold dayOfYear at h hnext
  rw [hyear] at h
  omega

theorem weekday_lt (d : Date) : d.weekday < 7 := by
  unfold weekday
  omega

/-- Two dates of the calendar with one day are one date. -/
theorem eq_of_dayNumber_eq {d e : Date} (hd : d.Valid) (he : e.Valid)
    (h : d.dayNumber = e.dayNumber) : d = e := by
  have hyear : d.year = e.year := Int.le_antisymm
    (year_le_of_dayNumber_le hd he (Int.le_of_eq h))
    (year_le_of_dayNumber_le he hd (Int.le_of_eq h.symm))
  have hdays : d.dayOfYear = e.dayOfYear := by
    rw [hd.dayNumber_eq, he.dayNumber_eq, hyear] at h
    omega
  have hmonth : d.month = e.month := Nat.le_antisymm
    (month_le_of_dayOfYear_le he hyear (Nat.le_of_eq hdays))
    (month_le_of_dayOfYear_le hd hyear.symm (Nat.le_of_eq hdays.symm))
  have hday : d.day = e.day := by
    have hpos := hd.1
    have hpos' := he.1
    unfold dayOfYear at hdays
    rw [hyear, hmonth] at hdays
    omega
  obtain ⟨_, _, _⟩ := d
  obtain ⟨_, _, _⟩ := e
  simp only at hyear hmonth hday
  rw [hyear, hmonth, hday]

/-- **A date of the calendar is the date of its day.** -/
theorem ofDayNumber_dayNumber {d : Date} (h : d.Valid) : ofDayNumber d.dayNumber = d :=
  eq_of_dayNumber_eq (valid_ofDayNumber _) h (dayNumber_ofDayNumber _)

/-! ## The supported range -/

theorem ofDayNumber?_eq_some {n : Int} {d : Date} :
    ofDayNumber? n = some d ↔ d.Valid ∧ d.InRange ∧ d.dayNumber = n := by
  unfold ofDayNumber?
  simp only
  constructor
  · intro h
    split at h
    · rename_i hrange
      cases h
      exact ⟨valid_ofDayNumber n, hrange, dayNumber_ofDayNumber n⟩
    · cases h
  · rintro ⟨hvalid, hrange, rfl⟩
    rw [ofDayNumber_dayNumber hvalid, if_pos hrange]

theorem make?_of_valid {d : Date} (hvalid : d.Valid) (hrange : d.InRange) :
    make? d.year d.month d.day = some d := by
  unfold make?
  exact if_pos ⟨hvalid, hrange⟩

/-- The days of the supported years fit into 32 bits. -/
theorem InRange.dayNumber_bounds {d : Date} (hvalid : d.Valid) (hrange : d.InRange) :
    -100000000 < d.dayNumber ∧ d.dayNumber < 100000000 := by
  obtain ⟨hfirst, hlast⟩ := hrange
  have hdays := hvalid.dayOfYear_lt
  have hlow := daysBeforeYear_mono hfirst
  have hhigh := daysBeforeYear_mono hlast
  have hfirst' : daysBeforeYear firstYear = -95746130 := by decide
  have hlast' : daysBeforeYear lastYear = 95745034 := by decide
  have hlength : yearLength d.year ≤ 366 := by
    unfold yearLength
    split <;> omega
  rw [hvalid.dayNumber_eq]
  unfold epoch
  omega

end Lakehouse.Date
