import Lakehouse.Calendar.DatePattern
import Lakehouse.Text.Blank
import Lakehouse.Text.Letters

/-!
# Reading dates by a pattern

Reading goes through the items of a pattern from left to right and stops at the first failure;
text that is left over is a failure too. Then the fields that were read are put together, the date
first, then the time.

* `DatePattern.items` — runs of blanks and runs of other literal characters are one item each.
* `Parts` — the fields read so far. A field that is read twice must agree with itself.
* `Parts.date`, `Parts.time` — a date has to exist: nothing rolls over into the next month.
* `DatePattern.read` — a field that the pattern lacks is taken at the start of its period. The
  missing fields are appended to text and pattern alike, each behind a separator that no text uses.

Model of `DatePattern::parse_millis`, and of the reading by directives under it. Left out:
directives that no pattern compiles to, such as week numbers and offsets.
-/

namespace Lakehouse.DatePattern

/-- Why a text does not match a pattern. -/
inductive Mismatch where
  | tooShort
  | invalid
  | outOfRange
  | impossible
  | notEnough
  | tooLong
  deriving DecidableEq, Repr

/-- The words for a mismatch. -/
def Mismatch.message : Mismatch → String
  | tooShort => "premature end of input"
  | invalid => "input contains invalid characters"
  | outOfRange => "input is out of range"
  | impossible => "no possible date and time matching input"
  | notEnough => "input is not enough for unique date and time"
  | tooLong => "trailing input"

/-! ## Items -/

/-- What one reading step consumes. -/
inductive Item where
  /-- Any number of blanks, none included. -/
  | blanks
  /-- Exactly these characters. -/
  | literal (cs : List Char)
  | field (f : Field)
  deriving DecidableEq, Repr

/-- The items of a list of tokens. A percent sign is an item of its own. -/
def items : List Token → List Item
  | [] => []
  | .field f :: rest => .field f :: items rest
  | .char c :: rest =>
    if c = '%' then .literal ['%'] :: items rest
    else if Text.isBlank c then
      match items rest with
      | .blanks :: more => .blanks :: more
      | more => .blanks :: more
    else
      match items rest with
      | .literal cs :: more => if cs = ['%'] then .literal [c] :: .literal cs :: more
        else .literal (c :: cs) :: more
      | more => .literal [c] :: more

/-! ## Fields that were read -/

/-- The fields of a date and a time that have been read. -/
structure Parts where
  year : Option Int
  yearOfCentury : Option Nat
  month : Option Nat
  day : Option Nat
  weekday : Option Nat
  /-- The half of the day: 0 before noon, 1 after it. -/
  half : Option Nat
  hourOfHalf : Option Nat
  minute : Option Nat
  second : Option Nat
  nanos : Option Nat
  deriving DecidableEq, Repr

/-- No field has been read. -/
def Parts.none : Parts :=
  ⟨.none, .none, .none, .none, .none, .none, .none, .none, .none, .none⟩

/-- A field with a new reading, which must not contradict an old one. -/
def agree {α : Type} [DecidableEq α] (old : Option α) (new : α) : Except Mismatch (Option α) :=
  match old with
  | some known => if known = new then .ok old else .error .impossible
  | none => .ok (some new)

/-- A number that must be from `low` to `high`. -/
def within (low high n : Nat) : Except Mismatch Nat :=
  if low ≤ n ∧ n ≤ high then .ok n else .error .outOfRange

namespace Parts

/-- Records the full year, which must fit into 32 bits. -/
def setYear (p : Parts) (n : Int) : Except Mismatch Parts :=
  if -2 ^ (31 : Nat) ≤ n ∧ n < 2 ^ (31 : Nat) then do return { p with year := ← agree p.year n }
  else .error .outOfRange

/-- Records the year of its century. -/
def setYearOfCentury (p : Parts) (n : Nat) : Except Mismatch Parts := do
  return { p with yearOfCentury := ← agree p.yearOfCentury n }

/-- Records the month. -/
def setMonth (p : Parts) (n : Nat) : Except Mismatch Parts := do
  let n ← within 1 12 n
  return { p with month := ← agree p.month n }

/-- Records the day of the month. -/
def setDay (p : Parts) (n : Nat) : Except Mismatch Parts := do
  let n ← within 1 31 n
  return { p with day := ← agree p.day n }

/-- Records the day of the week. -/
def setWeekday (p : Parts) (n : Nat) : Except Mismatch Parts := do
  return { p with weekday := ← agree p.weekday n }

/-- Records the half of the day. -/
def setHalf (p : Parts) (n : Nat) : Except Mismatch Parts := do
  return { p with half := ← agree p.half n }

/-- Records the hour of the half day, where twelve stands for zero. -/
def setHourOfHalf (p : Parts) (n : Nat) : Except Mismatch Parts := do
  let n ← within 1 12 n
  return { p with hourOfHalf := ← agree p.hourOfHalf (n % 12) }

/-- Records the hour of the day, as its half and the hour of that half. -/
def setHour (p : Parts) (n : Nat) : Except Mismatch Parts := do
  let n ← within 0 23 n
  let half ← agree p.half (n / 12)
  return { p with half, hourOfHalf := ← agree p.hourOfHalf (n % 12) }

/-- Records the minute. -/
def setMinute (p : Parts) (n : Nat) : Except Mismatch Parts := do
  let n ← within 0 59 n
  return { p with minute := ← agree p.minute n }

/-- Records the second; 60 is a leap second. -/
def setSecond (p : Parts) (n : Nat) : Except Mismatch Parts := do
  let n ← within 0 60 n
  return { p with second := ← agree p.second n }

/-- Records the nanoseconds of the second. -/
def setNanos (p : Parts) (n : Nat) : Except Mismatch Parts := do
  return { p with nanos := ← agree p.nanos n }

/-- The year that the fields give. A year of the century alone lies from 1970 to 2069; beside a full
year it must agree with it, and the full year must not be negative. -/
def resolveYear (p : Parts) : Except Mismatch Int :=
  match p.year, p.yearOfCentury with
  | some y, .none => .ok y
  | some y, some r => if 0 ≤ y ∧ y % 100 = r then .ok y else .error .impossible
  | .none, some r => .ok (if r < 70 then 2000 + r else 1900 + r)
  | .none, .none => .error .notEnough

/-- The date that the fields give. -/
def date (p : Parts) : Except Mismatch Date := do
  let year ← p.resolveYear
  match p.month, p.day with
  | some month, some day =>
    match Date.make? year month day with
    | .none => .error .outOfRange
    | some d => if p.weekday.all (· == d.weekday) then .ok d else .error .impossible
  | _, _ => .error .notEnough

/-- The date and time that the fields give. A leap second is the second before it, with a thousand
million nanoseconds more. -/
def dateTime (p : Parts) : Except Mismatch DateTime := do
  let date ← p.date
  match p.half, p.hourOfHalf, p.minute, p.second with
  | some half, some hour, some minute, some second =>
    let nanos := p.nanos.getD 0
    if second = 60 then .ok ⟨date, half * 12 + hour, minute, 59, nanos + 1000000000⟩
    else .ok ⟨date, half * 12 + hour, minute, second, nanos⟩
  | _, _, _, _ => .error .notEnough

end Parts

/-! ## Reading -/

/-- The length of a text in bytes of UTF-8. -/
def byteCount (cs : List Char) : Nat := (cs.flatMap String.utf8EncodeChar).length

/-- The first digits of a text, at most `width` of them, as a number that must fit into 64 bits;
and the rest of the text. -/
def takeNumber (width : Nat) (cs : List Char) : Except Mismatch (Nat × List Char) :=
  if cs = [] then .error .tooShort
  else
    let ds := (cs.take width).takeWhile Char.isDigit
    if ds = [] then .error .invalid
    else
      let n := Nat.ofDigitChars 10 ds 0
      if n < 2 ^ (63 : Nat) then .ok (n, cs.drop ds.length) else .error .outOfRange

/-- A number behind optional blanks. -/
def takeField (width : Nat) (cs : List Char) : Except Mismatch (Nat × List Char) :=
  takeNumber width (Text.dropBlanks cs)

/-- A year behind optional blanks: four digits, or any number of them behind a sign. -/
def takeYear (cs : List Char) : Except Mismatch (Int × List Char) :=
  match Text.dropBlanks cs with
  | '-' :: rest => do
    let (n, rest) ← takeNumber rest.length rest
    return (-(n : Int), rest)
  | '+' :: rest => do
    let (n, rest) ← takeNumber rest.length rest
    return ((n : Int), rest)
  | rest => do
    let (n, rest) ← takeNumber 4 rest
    return ((n : Int), rest)

/-- Exactly `width` digits. -/
def takeDigits (width : Nat) (cs : List Char) : Except Mismatch (Nat × List Char) :=
  if byteCount cs < width then .error .tooShort
  else if (cs.take width).all Char.isDigit then
    .ok (Nat.ofDigitChars 10 (cs.take width) 0, cs.drop width)
  else .error .invalid

/-- The position of the name whose first three letters the text starts with, and the rest. -/
def takeShortName (names : List String) (cs : List Char) : Except Mismatch (Nat × List Char) :=
  if byteCount cs < 3 then .error .tooShort
  else
    match names.findIdx? fun name => Text.sameChars (name.toList.take 3) (cs.take 3) with
    | some i => .ok (i, cs.drop 3)
    | none => .error .invalid

/-- As `takeShortName`; when the rest of the name follows entirely, it is taken too. -/
def takeLongName (names : List String) (cs : List Char) : Except Mismatch (Nat × List Char) := do
  let (i, rest) ← takeShortName names cs
  let more := (nameAt names i).drop 3
  if Text.sameChars more (rest.take more.length) then return (i, rest.drop more.length)
  else return (i, rest)

/-- The half of the day, and the rest. -/
def takeHalf (cs : List Char) : Except Mismatch (Nat × List Char) :=
  if byteCount cs < 2 then .error .tooShort
  else if Text.sameChars (cs.take 2) ['A', 'M'] then .ok (0, cs.drop 2)
  else if Text.sameChars (cs.take 2) ['P', 'M'] then .ok (1, cs.drop 2)
  else .error .invalid

/-- Reads one field. -/
def Field.read (p : Parts) (cs : List Char) : Field → Except Mismatch (Parts × List Char)
  | year => do let (n, rest) ← takeYear cs; return (← p.setYear n, rest)
  | yearOfCentury => do let (n, rest) ← takeField 2 cs; return (← p.setYearOfCentury n, rest)
  | month => do let (n, rest) ← takeField 2 cs; return (← p.setMonth n, rest)
  | monthShort => do
    let (i, rest) ← takeShortName monthNames cs
    return (← p.setMonth (i + 1), rest)
  | monthName => do let (i, rest) ← takeLongName monthNames cs; return (← p.setMonth (i + 1), rest)
  | day => do let (n, rest) ← takeField 2 cs; return (← p.setDay n, rest)
  | hour => do let (n, rest) ← takeField 2 cs; return (← p.setHour n, rest)
  | hourOfHalf => do let (n, rest) ← takeField 2 cs; return (← p.setHourOfHalf n, rest)
  | minute => do let (n, rest) ← takeField 2 cs; return (← p.setMinute n, rest)
  | second => do let (n, rest) ← takeField 2 cs; return (← p.setSecond n, rest)
  | fraction digits => do
    let (n, rest) ← takeDigits digits cs
    return (← p.setNanos (n * 10 ^ (9 - digits)), rest)
  | half => do let (n, rest) ← takeHalf cs; return (← p.setHalf n, rest)
  | weekdayShort => do
    let (i, rest) ← takeShortName weekdayNames cs
    return (← p.setWeekday i, rest)
  | weekdayName => do let (i, rest) ← takeLongName weekdayNames cs; return (← p.setWeekday i, rest)

/-- Reads one item. -/
def Item.read (p : Parts) (cs : List Char) : Item → Except Mismatch (Parts × List Char)
  | blanks => .ok (p, Text.dropBlanks cs)
  | literal expected =>
    if byteCount cs < byteCount expected then .error .tooShort
    else if expected.isPrefixOf cs then .ok (p, cs.drop expected.length)
    else .error .invalid
  | field f => f.read p cs

/-- Reads items one after the other; gives the fields and the text left over. -/
def readItems (p : Parts) (cs : List Char) : List Item → Except Mismatch (Parts × List Char)
  | [] => .ok (p, cs)
  | item :: rest => do
    let (p, cs) ← item.read p cs
    readItems p cs rest

/-- Reads a whole text. -/
def readAll (items : List Item) (cs : List Char) : Except Mismatch Parts := do
  let (p, rest) ← readItems Parts.none cs items
  if rest = [] then .ok p else .error .tooLong

/-- Separates the text from the fields that its pattern lacks. -/
def separator : Char := '\x1f'

/-- The fields that a pattern lacks of those that start a period, with the text of each. -/
def defaults (tokens : List Token) : List (Field × List Char) :=
  let given (fs : List Field) : Bool := fs.any (mentions · tokens)
  [([Field.month, .monthShort, .monthName], Field.month, ['0', '1']),
    ([.day], .day, ['0', '1']),
    ([.hour, .hourOfHalf], .hour, ['0', '0']),
    ([.minute], .minute, ['0', '0']),
    ([.second], .second, ['0', '0'])].filterMap fun (fields, field, text) =>
      if given fields then none else some (field, text)

/-- The date and time that a text denotes under a pattern. -/
def read (p : DatePattern) (cs : List Char) : Except Mismatch DateTime := do
  let missing := defaults p.tokens
  let text := cs ++ missing.flatMap fun (_, start) => separator :: start
  let tokens := p.tokens ++ missing.flatMap fun (field, _) => [.char separator, .field field]
  (← readAll (items tokens) text).dateTime

/-- The instant, in milliseconds, that a text denotes under a pattern. -/
def readMillis (p : DatePattern) (text : String) : Except Fault Int64 :=
  match p.read text.toList with
  | .ok t => .ok (Int64.ofInt t.millis)
  | .error mismatch => .error ⟨.parseException,
      s!"'{text}' does not match date pattern '{p.source}': {mismatch.message}"⟩

end Lakehouse.DatePattern
