import Lakehouse.Decimal.Basic

/-!
# Decimals from text

A plain decimal is an optional sign and digits with at most one point; an underscore may stand
anywhere behind the first digit. More places than a decimal can hold are rounded away, a half going
up in magnitude, once: at the digit behind the last place that fits.

A scientific decimal is a plain one, `e` or `E`, and a whole exponent.

* `Decimal.readPlain` — reads a plain decimal by one pass over its characters (`Scan.digits`).
* `Decimal.readScientific` — a positive exponent must leave a number that a decimal can hold, a
  negative one may cost the base its last places.
* `Decimal.readChars` — a plain decimal, else a scientific one; the second attempt words the
  failure.

Model of `parse`, and of the reading of a plain and of a scientific decimal under it.
-/

namespace Lakehouse.Decimal

/-- Why a text denotes no decimal. -/
inductive Problem where
  | empty
  | noDigits
  | unknownCharacter
  | twoPoints
  | leadingSeparator
  | tooManyDigits
  | roundingOverflow
  | noExponent
  | scaleTooLarge (scale : Nat)
  | tooLarge
  deriving DecidableEq, Repr

/-- The words for a problem. -/
def Problem.message : Problem → String
  | empty => "Invalid decimal: empty"
  | noDigits => "Invalid decimal: no digits found"
  | unknownCharacter => "Invalid decimal: unknown character"
  | twoPoints => "Invalid decimal: two decimal points"
  | leadingSeparator => "Invalid decimal: must start lead with a number"
  | tooManyDigits => "Invalid decimal: overflow from too many digits"
  | roundingOverflow => "Invalid decimal: overflow from mantissa after rounding"
  | noExponent => "Failed to parse"
  | scaleTooLarge scale => s!"Scale exceeds the maximum precision allowed: {scale} > 28"
  | tooLarge => "Number exceeds maximum value that can be represented."

/-! ## Plain decimals -/

/-- The part of a plain decimal that has been read: the number `value / 10 ^ places`. -/
structure Scan where
  value : Nat
  places : Nat
  /-- A point has been read. -/
  pointed : Bool
  /-- A digit has been read. -/
  started : Bool
  /-- The value had left 64 bits before its last place was taken. -/
  wide : Bool
  deriving DecidableEq

namespace Scan

/-- Nothing has been read. -/
def start : Scan := ⟨0, 0, false, false, false⟩

/-- From this value on one more digit may not fit into 64 bits. -/
def wideFrom : Nat := 1844674407370954906

/-- Whether no further place can be taken. -/
def isFull (s : Scan) : Bool := s.pointed && maxScale ≤ s.places

/-- The value with one more digit. -/
def next (s : Scan) (c : Char) : Nat := s.value * 10 + Numeral.digitValue c

/-- Takes a digit that fits. -/
def push (s : Scan) (c : Char) : Scan :=
  let t : Scan :=
    { s with value := s.next c, places := if s.pointed then s.places + 1 else 0, started := true }
  { t with wide := s.wide || (!t.isFull && wideFrom ≤ t.value) }

/-- Rounds at a digit that does not fit: from five on the magnitude goes up. A value that leaves
96 bits thereby gives up its last place. -/
def round (s : Scan) (c : Char) : Except Problem Scan :=
  if Numeral.digitValue c < 5 then .ok s
  else if s.value + 1 < capacity then .ok { s with value := s.value + 1 }
  else if s.places = 0 then .error .roundingOverflow
  else .ok { s with value := (s.value + 5) / 10, places := s.places - 1 }

/-- How a character that belongs to no decimal is reported. -/
def reject (c : Char) : Problem :=
  if c = '.' then .twoPoints else if c = '_' then .leadingSeparator else .unknownCharacter

/-- Behind the digit that rounds, only digits and separators may follow. -/
def checkRest (s : Scan) : List Char → Except Problem Scan
  | [] => .ok s
  | c :: rest => if c.isDigit || c == '_' then checkRest s rest else .error (reject c)

/-- Reads the characters behind the sign. -/
def digits (s : Scan) : List Char → Except Problem Scan
  | [] => if s.started then .ok s else .error .noDigits
  | c :: rest =>
    if c.isDigit then
      if s.isFull then do checkRest (← s.round c) rest
      else if s.next c < capacity then digits (s.push c) rest
      else if s.pointed then do checkRest (← s.round c) rest
      else .error .tooManyDigits
    else if c = '.' ∧ !s.pointed then digits { s with pointed := true } rest
    else if c = '_' ∧ s.started then
      if s.isFull && !s.wide then checkRest s rest else digits s rest
    else .error (reject c)

/-- The decimal that has been read, under its sign. -/
def decimal (s : Scan) (negative : Bool) : Except Problem Decimal :=
  match make? (if negative then -(s.value : Int) else s.value) s.places with
  | some d => .ok d
  | none => .error .tooManyDigits

end Scan

/-- Reads a plain decimal. -/
def readPlain : List Char → Except Problem Decimal
  | [] => .error .empty
  | '-' :: rest => do (← Scan.start.digits rest).decimal true
  | '+' :: rest => do (← Scan.start.digits rest).decimal false
  | cs => do (← Scan.start.digits cs).decimal false

/-! ## Scientific decimals -/

/-- The decimal with that coefficient and scale. -/
def fit (problem : Problem) (coefficient : Int) (scale : Nat) : Except Problem Decimal :=
  match make? coefficient scale with
  | some d => .ok d
  | none => .error problem

/-- The whole number nearest `n / 10 ^ places`, a half going up in magnitude. -/
def dropPlaces (n : Int) (places : Nat) : Int :=
  let magnitude := (2 * n.natAbs + 10 ^ places) / (2 * 10 ^ places)
  if n < 0 then -(magnitude : Int) else magnitude

/-- `d / 10 ^ n`. When the scale would pass its maximum, the base is first rounded to the places
that leave room for the exponent. -/
def shiftDown (d : Decimal) (n : Nat) : Except Problem Decimal :=
  if maxScale < n then .error (.scaleTooLarge n)
  else if maxScale < d.scale + n then
    fit .tooLarge (dropPlaces d.coefficient (d.scale - (maxScale - n))) maxScale
  else fit .tooLarge d.coefficient (d.scale + n)

/-- `d · 10 ^ n`. The scale gives what it can, the coefficient the rest. -/
def shiftUp (d : Decimal) (n : Nat) : Except Problem Decimal :=
  if n ≤ d.scale then fit .tooLarge d.coefficient (d.scale - n)
  else if maxScale < n then .error (.scaleTooLarge n)
  else fit .tooLarge (d.coefficient * 10 ^ (n - d.scale)) 0

/-- Whether a character introduces an exponent. -/
def isExponentMark (c : Char) : Bool := c == 'e' || c == 'E'

/-- The largest exponent that can be written. -/
def exponentLimit : Nat := 2 ^ (32 : Nat) - 1

/-- Reads the digits of an exponent. -/
def readExponent (cs : List Char) : Except Problem Nat :=
  match Numeral.readNatural exponentLimit cs with
  | .ok n => .ok n
  | .error _ => .error .noExponent

/-- Reads a plain decimal, an exponent mark, and an exponent. -/
def readScientific (cs : List Char) : Except Problem Decimal :=
  match cs.dropWhile (!isExponentMark ·) with
  | [] => .error .noExponent
  | _ :: exponent => do
    let base ← readPlain (cs.takeWhile (!isExponentMark ·))
    match exponent with
    | '-' :: ds => base.shiftDown (← readExponent ds)
    | ds => base.shiftUp (← readExponent ds)

/-- Reads a decimal of either form. -/
def readChars (cs : List Char) : Except Problem Decimal :=
  match readPlain cs with
  | .ok d => .ok d
  | .error _ => readScientific cs

end Lakehouse.Decimal
