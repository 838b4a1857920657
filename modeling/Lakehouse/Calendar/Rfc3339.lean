import Lakehouse.Calendar.DatePattern.Reader

/-!
# Reading instants in the form of RFC 3339

The form is read generously: blanks may stand between the parts, a blank may separate date and time,
and the offset may be written as `Z`, `UTC`, or hours and minutes behind a sign.

Model of how the time of a `Checkpoint` is read from a document. Left out: why a text is no instant.
-/

namespace Lakehouse.Rfc3339

open DatePattern

/-- The items of the date. -/
def dateItems : List Item :=
  [.field .year, .blanks, .literal ['-'], .field .month, .blanks, .literal ['-'], .field .day]

/-- The items of the time of day, without the fraction. -/
def timeItems : List Item :=
  [.field .hour, .blanks, .literal [':'], .field .minute, .blanks, .literal [':'], .field .second]

/-- The nanoseconds that a fraction's digits denote; more than nine digits are cut off. -/
def nanosOf (ds : List Char) : Nat :=
  let kept := ds.take 9
  Nat.ofDigitChars 10 kept 0 * 10 ^ (9 - kept.length)

/-- Reads the fraction of the second, if there is one. -/
def takeFraction (p : Parts) (cs : List Char) : Option (Parts × List Char) :=
  match cs with
  | '.' :: rest =>
    let ds := rest.takeWhile Char.isDigit
    if ds = [] then none
    else some ({ p with nanos := some (nanosOf ds) }, rest.dropWhile Char.isDigit)
  | _ => some (p, cs)

/-- The seconds of an offset's hours and minutes, and what follows them. -/
def takeOffsetDigits (cs : List Char) : Option (Nat × List Char) :=
  match cs with
  | h1 :: h2 :: rest =>
    match rest.dropWhile fun c => c == ':' || Text.isBlank c with
    | m1 :: m2 :: rest =>
      if [h1, h2, m1, m2].all Char.isDigit ∧ m1 ≤ '5' then
        let number (a b : Char) : Nat := Nat.ofDigitChars 10 [a, b] 0
        some (number h1 h2 * 3600 + number m1 m2 * 60, rest)
      else none
    | _ => none
  | _ => none

/-- The offset from UTC in seconds, and what follows it. -/
def takeOffset (cs : List Char) : Option (Int × List Char) :=
  if Text.sameChars (cs.take 3) ['U', 'T', 'C'] then some (0, cs.drop 3)
  else
    match cs with
    | 'Z' :: rest | 'z' :: rest => some (0, rest)
    | '+' :: rest => (takeOffsetDigits rest).map fun (n, rest) => ((n : Int), rest)
    | '-' :: rest | '\u2212' :: rest =>
      (takeOffsetDigits rest).map fun (n, rest) => (-(n : Int), rest)
    | _ => none

/-- What separates the date from the time. -/
def isSeparator (c : Char) : Bool := c == 'T' || c == 't' || c == ' '

/-- The seconds of a day. -/
def secondsPerDay : Nat := 86400

/-- The instant that a text denotes. -/
def read (text : String) : Option Instant := do
  let (p, cs) ← (readItems Parts.none text.toList dateItems).toOption
  match cs with
  | [] => none
  | c :: cs =>
    if isSeparator c then
      let (p, cs) ← (readItems p cs timeItems).toOption
      let (p, cs) ← takeFraction p cs
      let (offset, cs) ← takeOffset (Text.dropBlanks cs)
      let t ← p.dateTime.toOption
      let seconds := t.seconds - offset
      if Text.dropBlanks cs = [] ∧ offset.natAbs < secondsPerDay
          ∧ (Date.ofDayNumber? (seconds / secondsPerDay)).isSome then
        some ⟨seconds, t.nanos⟩
      else none
    else none

end Lakehouse.Rfc3339
