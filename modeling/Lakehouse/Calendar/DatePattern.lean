import Lakehouse.Calendar.Instant
import Lakehouse.Fault

/-!
# Date patterns

A date pattern spells a date the way a configuration does: `yyyy-MM-dd HH:mm:ss`. Outside quotes a
run of one ASCII letter stands for a field of the date; every other character stands for itself. A
section between single quotes stands for itself too, and two quotes in a row outside a section are
one quote.

* `DatePattern.Field.ofRun?` — which runs of letters are fields.
* `DatePattern.scan` — the tokens of a pattern, from left to right.
* `DatePattern.directives` and `DatePattern.readDirectives` — the tokens in the notation of
  `strftime`, where a field is a percent sign and letters, and back.
* `DatePattern.compile` — refuses a section that does not end, a run that is no field, and an hour
  of the half day without its half. Dates are written and read by what the directives say.
* `DatePattern.write` — the pattern filled in, token by token: literal text never acts as a field.

Model of `DatePattern::compile` and `DatePattern::format_millis`. The program keeps the directives
of a compiled pattern and which fields it has; here the tokens are kept, and both are computed from
them.
-/

namespace Lakehouse

/-- A part of a date that a run of letters stands for. -/
inductive DatePattern.Field where
  | year
  | yearOfCentury
  | month
  | monthShort
  | monthName
  | day
  | hour
  | hourOfHalf
  | minute
  | second
  /-- The fraction of the second, in that many digits. -/
  | fraction (digits : Nat)
  /-- The half of the day. -/
  | half
  | weekdayShort
  | weekdayName
  deriving DecidableEq, Repr

/-- A piece of a pattern: a character that stands for itself, or a field. -/
inductive DatePattern.Token where
  | char (c : Char)
  | field (f : DatePattern.Field)
  deriving DecidableEq, Repr

/-- A date pattern: its text and the tokens it spells. -/
structure DatePattern where
  source : String
  tokens : List DatePattern.Token
  deriving DecidableEq

namespace DatePattern

/-- The field that `length` times the letter `c` stands for. -/
def Field.ofRun? (c : Char) (length : Nat) : Option Field :=
  match c with
  | 'y' => some (if length = 2 then .yearOfCentury else .year)
  | 'M' => some (if length ≤ 2 then .month else if length = 3 then .monthShort else .monthName)
  | 'd' => some .day
  | 'H' => some .hour
  | 'h' => some .hourOfHalf
  | 'm' => some .minute
  | 's' => some .second
  | 'S' => if length = 3 ∨ length = 6 ∨ length = 9 then some (.fraction length) else none
  | 'a' => some .half
  | 'E' => some (if length ≤ 3 then .weekdayShort else .weekdayName)
  | _ => none

/-- Why a text is no date pattern. -/
inductive Problem where
  | unterminatedQuote
  | unsupportedRun (letter : Char) (length : Nat)
  | hourWithoutHalf
  deriving DecidableEq, Repr

/-- The words for a problem with the pattern `source`. -/
def Problem.message (source : String) : Problem → String
  | unterminatedQuote => s!"unterminated quote in date pattern '{source}'"
  | unsupportedRun letter length =>
    let run := String.ofList (List.replicate length letter)
    s!"unsupported letter run '{run}' in date pattern '{source}'"
  | hourWithoutHalf => s!"date pattern '{source}' uses 12-hour 'h' without an 'a' marker"

/-- The tokens of a pattern. -/
def scan : List Char → Except Problem (List Token)
  | [] => .ok []
  | '\'' :: '\'' :: rest => do return .char '\'' :: (← scan rest)
  | '\'' :: rest =>
    match _h : rest.dropWhile (· != '\'') with
    | [] => .error .unterminatedQuote
    | _ :: after => do return (rest.takeWhile (· != '\'')).map .char ++ (← scan after)
  | c :: rest =>
    if c.isAlpha then
      let length := (rest.takeWhile (· == c)).length + 1
      match Field.ofRun? c length with
      | none => .error (.unsupportedRun c length)
      | some field => do return .field field :: (← scan (rest.dropWhile (· == c)))
    else do return .char c :: (← scan rest)
termination_by cs => cs.length
decreasing_by
  all_goals simp only [List.length_cons]
  · omega
  · have hle := (List.dropWhile_sublist (· != '\'') (l := rest)).length_le
    rw [_h, List.length_cons] at hle
    omega
  · have hle := (List.dropWhile_sublist (· == c) (l := rest)).length_le
    omega
  · omega

/-- Whether some token is that field. -/
def mentions (f : Field) (tokens : List Token) : Bool := tokens.contains (.field f)

/-- The tokens of a pattern, if it is one. -/
def check (cs : List Char) : Except Problem (List Token) := do
  let tokens ← scan cs
  if mentions .hourOfHalf tokens && !mentions .half tokens then .error .hourWithoutHalf
  else .ok tokens

/-! ## Directives -/

/-- What stands for a field behind a percent sign. -/
def Field.directive : Field → List Char
  | year => ['Y']
  | yearOfCentury => ['y']
  | month => ['m']
  | monthShort => ['b']
  | monthName => ['B']
  | day => ['d']
  | hour => ['H']
  | hourOfHalf => ['I']
  | minute => ['M']
  | second => ['S']
  | fraction digits => [Nat.digitChar digits, 'f']
  | half => ['p']
  | weekdayShort => ['a']
  | weekdayName => ['A']

/-- A token in directives. A percent sign that stands for itself is doubled. -/
def Token.directive : Token → List Char
  | char c => if c = '%' then ['%', '%'] else [c]
  | field f => '%' :: f.directive

/-- Tokens in directives. -/
def directives (tokens : List Token) : List Char := tokens.flatMap Token.directive

/-- The field that a single letter behind a percent sign stands for. -/
def Field.ofDirective? : Char → Option Field
  | 'Y' => some .year
  | 'y' => some .yearOfCentury
  | 'm' => some .month
  | 'b' => some .monthShort
  | 'B' => some .monthName
  | 'd' => some .day
  | 'H' => some .hour
  | 'I' => some .hourOfHalf
  | 'M' => some .minute
  | 'S' => some .second
  | 'p' => some .half
  | 'a' => some .weekdayShort
  | 'A' => some .weekdayName
  | _ => none

/-- The tokens that directives stand for. There are more directives than fields; a percent sign in
front of anything else is refused. -/
def readDirectives : List Char → Option (List Token)
  | [] => some []
  | '%' :: '%' :: rest => (readDirectives rest).map (.char '%' :: ·)
  | '%' :: '3' :: 'f' :: rest => (readDirectives rest).map (.field (.fraction 3) :: ·)
  | '%' :: '6' :: 'f' :: rest => (readDirectives rest).map (.field (.fraction 6) :: ·)
  | '%' :: '9' :: 'f' :: rest => (readDirectives rest).map (.field (.fraction 9) :: ·)
  | '%' :: letter :: rest =>
    match Field.ofDirective? letter with
    | some f => (readDirectives rest).map (.field f :: ·)
    | none => none
  | ['%'] => none
  | c :: rest => (readDirectives rest).map (.char c :: ·)

/-- The pattern that a text spells. -/
def compile (source : String) : Except Fault DatePattern :=
  match check source.toList with
  | .ok tokens =>
    match readDirectives (directives tokens) with
    | some tokens => .ok ⟨source, tokens⟩
    | none => .error ⟨.parseException, s!"invalid date pattern '{source}'"⟩
  | .error problem => .error ⟨.parseException, problem.message source⟩

/-! ## Writing -/

/-- The English names of the months. -/
def monthNames : List String :=
  ["January", "February", "March", "April", "May", "June", "July", "August", "September",
    "October", "November", "December"]

/-- The English names of the days of the week. -/
def weekdayNames : List String :=
  ["Monday", "Tuesday", "Wednesday", "Thursday", "Friday", "Saturday", "Sunday"]

/-- The name at a position, and nothing beyond the last. -/
def nameAt (names : List String) (i : Nat) : List Char := (names[i]?.getD "").toList

/-- A field of a date, written. -/
def Field.write (t : DateTime) : Field → List Char
  | year => Date.yearChars t.date.year
  | yearOfCentury => Numeral.padded 2 (t.date.year % 100).toNat
  | month => Numeral.padded 2 t.date.month
  | monthShort => (nameAt monthNames (t.date.month - 1)).take 3
  | monthName => nameAt monthNames (t.date.month - 1)
  | day => Numeral.padded 2 t.date.day
  | hour => Numeral.padded 2 t.hour
  | hourOfHalf => Numeral.padded 2 (if t.hour % 12 = 0 then 12 else t.hour % 12)
  | minute => Numeral.padded 2 t.minute
  | second => Numeral.padded 2 t.second
  | fraction digits => Numeral.padded digits (t.nanos % 1000000000 / 10 ^ (9 - digits))
  | half => if t.hour < 12 then ['A', 'M'] else ['P', 'M']
  | weekdayShort => (nameAt weekdayNames t.date.weekday).take 3
  | weekdayName => nameAt weekdayNames t.date.weekday

/-- A token, written for a date. -/
def Token.write (t : DateTime) : Token → List Char
  | char c => [c]
  | field f => f.write t

/-- A date in the form of a pattern. -/
def write (p : DatePattern) (t : DateTime) : List Char := p.tokens.flatMap (Token.write t)

/-- An instant that no supported date contains. -/
def instantFault (millis : Int64) : Fault :=
  ⟨.parseException, s!"instant {millis.toInt} ms is out of range"⟩

/-- An instant in milliseconds in the form of a pattern. -/
def writeMillis (p : DatePattern) (millis : Int64) : Except Fault String :=
  match DateTime.ofMillis? millis.toInt with
  | some t => .ok (String.ofList (p.write t))
  | none => .error (instantFault millis)

end DatePattern

end Lakehouse
