import Lakehouse.Calendar.Date

/-!
# Instants and clock times

A `DateTime` is a date and a time of day, always in UTC. Its nanoseconds reach two thousand million
in the last second of a minute, which is how a leap second is told from the second before it.

An `Instant` is the same point in time counted in seconds and nanoseconds since 1970.

* `DateTime.ofMillis?` — the clock time of an instant in milliseconds, within the supported years.
* `DateTime.millis` — the milliseconds since 1970; what is finer is dropped.
* `Instant.rfc3339` — the text of an instant: date, `T`, time, and the offset in the given form.

Model of `millis_to_datetime` and `datetime_to_millis`, and of the time of a `Checkpoint`. Left out:
zones other than UTC.
-/

namespace Lakehouse

/-- A date and a time of day, in UTC. -/
structure DateTime where
  date : Date
  hour : Nat
  minute : Nat
  second : Nat
  nanos : Nat
  deriving DecidableEq, Repr

/-- A point in time, in seconds and nanoseconds since 1970-01-01. -/
structure Instant where
  seconds : Int
  nanos : Nat
  deriving DecidableEq, Repr

namespace DateTime

/-- The date and time of a day number and the seconds within that day. -/
def ofDay (date : Date) (secondOfDay nanos : Nat) : DateTime :=
  ⟨date, secondOfDay / 3600, secondOfDay / 60 % 60, secondOfDay % 60, nanos⟩

/-- The clock time of an instant in milliseconds since 1970, if its year is supported. -/
def ofMillis? (millis : Int) : Option DateTime :=
  (Date.ofDayNumber? (millis / 86400000)).map fun date =>
    let rest := (millis % 86400000).toNat
    ofDay date (rest / 1000) (rest % 1000 * 1000000)

/-- The seconds since 1970; a leap second counts as the second before it. -/
def seconds (t : DateTime) : Int :=
  t.date.dayNumber * 86400 + (t.hour * 3600 + t.minute * 60 + t.second : Nat)

/-- The milliseconds since 1970; what is finer is dropped. -/
def millis (t : DateTime) : Int := t.seconds * 1000 + (t.nanos / 1000000 : Nat)

end DateTime

namespace Instant

/-- Instants in the order of time. -/
def before (a b : Instant) : Bool :=
  a.seconds < b.seconds || (a.seconds == b.seconds && a.nanos < b.nanos)

/-- A fraction of a second after a point, in the fewest of three, six or nine digits that are
exact; nothing for a whole second. -/
def fractionChars (nanos : Nat) : List Char :=
  if nanos = 0 then []
  else if nanos % 1000000 = 0 then '.' :: Numeral.padded 3 (nanos / 1000000)
  else if nanos % 1000 = 0 then '.' :: Numeral.padded 6 (nanos / 1000)
  else '.' :: Numeral.padded 9 nanos

/-- The date and time of an instant in the form of RFC 3339, followed by `zone`. The second of a
leap second is one more than that of the second before it. -/
def rfc3339 (zone : String) (t : Instant) : String :=
  let date := Date.ofDayNumber (t.seconds / 86400)
  let clock := DateTime.ofDay date (t.seconds % 86400).toNat t.nanos
  let leap := 1000000000 ≤ t.nanos
  let second := if leap then clock.second + 1 else clock.second
  let nanos := if leap then t.nanos - 1000000000 else t.nanos
  String.ofList (clock.date.iso ++ 'T' :: Numeral.padded 2 clock.hour
    ++ ':' :: Numeral.padded 2 clock.minute ++ ':' :: Numeral.padded 2 second
    ++ fractionChars nanos ++ zone.toList)

end Instant

end Lakehouse
