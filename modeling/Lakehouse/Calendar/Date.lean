import Lakehouse.Number.Numeral

/-!
# Dates of the Gregorian calendar

Dates are those of the Gregorian calendar extended to all years; there is a year zero. Days are
counted from 1970-01-01.

* `Date.Valid` — the month exists and has that day.
* `Date.dayNumber` and `Date.ofDayNumber` — the date of a day and the day of a date. The second
  takes whole cycles of 400 years, then centuries, then spans of four years, then years.
* `Date.iso` — year, month and day with hyphens; a year outside 0 to 9999 carries a sign.

Model of the calendar dates that the conversions compute with, within the years their calendar
library supports. Left out: weeks and quarters.
-/

namespace Lakehouse

/-- A day in a calendar. -/
structure Date where
  year : Int
  month : Nat
  day : Nat
  deriving DecidableEq, Repr

namespace Date

/-- Whether a year has a 29th of February. -/
def isLeap (year : Int) : Bool := year % 4 == 0 && (year % 100 != 0 || year % 400 == 0)

/-- The number of days of a month; none for a month that does not exist. -/
def monthLength (year : Int) : Nat → Nat
  | 1 | 3 | 5 | 7 | 8 | 10 | 12 => 31
  | 4 | 6 | 9 | 11 => 30
  | 2 => if isLeap year then 29 else 28
  | _ => 0

/-- A date that is in the calendar. -/
def Valid (d : Date) : Prop := 1 ≤ d.day ∧ d.day ≤ monthLength d.year d.month

instance (d : Date) : Decidable d.Valid := inferInstanceAs (Decidable (_ ∧ _))

/-- The first year of the supported range. -/
def firstYear : Int := -262143

/-- The last year of the supported range. -/
def lastYear : Int := 262142

/-- Whether the year is in the supported range. -/
def InRange (d : Date) : Prop := firstYear ≤ d.year ∧ d.year ≤ lastYear

instance (d : Date) : Decidable d.InRange := inferInstanceAs (Decidable (_ ∧ _))

/-- The date of that year, month and day, if it is in the calendar and in the supported range. -/
def make? (year : Int) (month day : Nat) : Option Date :=
  let d : Date := ⟨year, month, day⟩
  if d.Valid ∧ d.InRange then some d else none

/-! ## Counting days -/

/-- The days from the first day of year 1 to the first day of `year`. -/
def daysBeforeYear (year : Int) : Int :=
  let y := year - 1
  365 * y + y / 4 - y / 100 + y / 400

/-- The days of a year before one of its months. -/
def daysBeforeMonth (year : Int) : Nat → Nat
  | 0 => 0
  | m + 1 => daysBeforeMonth year m + monthLength year m

/-- The days from the first day of year 1 to 1970-01-01. -/
def epoch : Int := 719162

/-- The days from 1970-01-01 to a date. -/
def dayNumber (d : Date) : Int :=
  daysBeforeYear d.year + daysBeforeMonth d.year d.month + (d.day - 1 : Int) - epoch

/-- The year of a day counted from the first day of year 1, and the days of that year before it. -/
def splitYear (n : Int) : Int × Nat :=
  let inCycle := (n % 146097).toNat
  let century := min (inCycle / 36524) 3
  let inCentury := inCycle - century * 36524
  let inFour := inCentury % 1461
  let last := min (inFour / 365) 3
  (400 * (n / 146097) + 100 * century + 4 * (inCentury / 1461 : Nat) + last + 1,
    inFour - last * 365)

/-- The month and the day of the month of a day of the year, counted over the given months. -/
def splitMonth (year : Int) : List Nat → Nat → Nat × Nat
  | [], n => (12, n + 1)
  | m :: rest, n =>
    if n < monthLength year m then (m, n + 1) else splitMonth year rest (n - monthLength year m)

/-- The months of a year. -/
def months : List Nat := [1, 2, 3, 4, 5, 6, 7, 8, 9, 10, 11, 12]

/-- The date so many days after 1970-01-01. -/
def ofDayNumber (n : Int) : Date :=
  let (year, rest) := splitYear (n + epoch)
  let (month, day) := splitMonth year months rest
  ⟨year, month, day⟩

/-- The date so many days after 1970-01-01, if it is in the supported range. -/
def ofDayNumber? (n : Int) : Option Date :=
  let d := ofDayNumber n
  if d.InRange then some d else none

/-- The day of the week of a date; Monday is zero. -/
def weekday (d : Date) : Nat := ((d.dayNumber + 3) % 7).toNat

/-! ## Writing -/

/-- The text of a year: at least four digits, with a sign outside 0 to 9999. -/
def yearChars (year : Int) : List Char :=
  if 0 ≤ year ∧ year ≤ 9999 then Numeral.padded 4 year.natAbs
  else (if year < 0 then '-' else '+') :: Numeral.padded 4 year.natAbs

/-- A date as year, month and day with hyphens between them. -/
def iso (d : Date) : List Char :=
  yearChars d.year ++ '-' :: Numeral.padded 2 d.month ++ '-' :: Numeral.padded 2 d.day

end Date

end Lakehouse
