import Lakehouse.Calendar.DatePattern.Reader
import Lakehouse.Number.Bounded

/-!
# Epoch days

An epoch day is a date as the number of days since 1970-01-01.

* `EpochDay.date` — the date of a day, within the supported years.
* `EpochDay.iso` and `EpochDay.read` — a day as year, month and day with hyphens.
* `EpochDay.millis` and `EpochDay.ofMillis` — the first instant of a day, and the day of an instant.

Model of `epoch_day_to_date`, `date_to_epoch_day`, `format_epoch_day`, `parse_epoch_day`,
`epoch_day_to_millis` and `millis_to_epoch_day`.
-/

namespace Lakehouse.EpochDay

/-- The milliseconds of a day. -/
def millisPerDay : Int := 86400000

/-- The date of an epoch day. -/
def date (day : Int32) : Except Fault Date :=
  match Date.ofDayNumber? day.toInt with
  | some d => .ok d
  | none => .error ⟨.parseException, s!"epoch day {day.toInt} is out of range"⟩

/-- The epoch day of a date. -/
def ofDate (d : Date) : Int32 := Int32.ofInt d.dayNumber

/-- An epoch day as year, month and day with hyphens. -/
def iso (day : Int32) : Except Fault String := do
  return String.ofList (← date day).iso

/-- What a date with hyphens is read by. -/
def isoItems : List DatePattern.Item :=
  [.field .year, .literal ['-'], .field .month, .literal ['-'], .field .day]

/-- The date that year, month and day with hyphens denote. -/
def readDate (cs : List Char) : Except DatePattern.Mismatch Date := do
  (← DatePattern.readAll isoItems cs).date

/-- The epoch day that year, month and day with hyphens denote; blanks around them are skipped. -/
def read (text : String) : Except Fault Int32 :=
  match readDate (Text.trim text).toList with
  | .ok d => .ok (ofDate d)
  | .error mismatch => .error ⟨.parseException, s!"invalid date '{text}': {mismatch.message}"⟩

/-- The first instant of an epoch day, in milliseconds. -/
def millis (day : Int32) : Except Fault Int64 :=
  match int64? (day.toInt * millisPerDay) with
  | some n => .ok n
  | none => .error ⟨.parseException, s!"epoch day {day.toInt} overflows millis"⟩

/-- The epoch day of an instant in milliseconds. -/
def ofMillis (instant : Int64) : Except Fault Int32 :=
  match int32? (instant.toInt / millisPerDay) with
  | some day => .ok day
  | none => .error ⟨.parseException, s!"{instant.toInt} ms is out of the date range"⟩

end Lakehouse.EpochDay
