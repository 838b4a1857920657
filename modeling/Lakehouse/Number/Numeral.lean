import Lakehouse.Number.Bounded

/-!
# Decimal numerals

Whole numbers as text. Written: the digits, at least one, after a minus sign for a negative
number. Read: an optional sign and at least one digit, leading zeros allowed, within given bounds.

* `Numeral.accumulate` — the value of a run of digits; the first character that is no digit, or the
  first digit that passes the limit, decides how reading fails.
* `Numeral.read` — a signed numeral between a lower and an upper bound.
* `Numeral.ofInt` — the text of an integer.
* `Numeral.fixed` — the text of `n / 10 ^ places`.

Model of how integers are parsed and displayed.
-/

namespace Lakehouse.Numeral

/-- Why a text is no numeral within its bounds. -/
inductive Problem where
  | empty
  | invalidDigit
  | tooLarge
  | tooSmall
  deriving DecidableEq, Repr

/-- The words for a problem. -/
def Problem.message : Problem → String
  | empty => "cannot parse integer from empty string"
  | invalidDigit => "invalid digit found in string"
  | tooLarge => "number too large to fit in target type"
  | tooSmall => "number too small to fit in target type"

/-! ## Writing -/

/-- The decimal digits of a number. -/
def digits (n : Nat) : List Char := Nat.toDigits 10 n

/-- The decimal digits of a number, filled up with zeros in front to at least `width`. -/
def padded (width n : Nat) : List Char :=
  List.replicate (width - (digits n).length) '0' ++ digits n

/-- The digits of an integer after its sign. -/
def signed (n : Int) : List Char :=
  if n < 0 then '-' :: digits n.natAbs else digits n.natAbs

/-- The text of an integer. -/
def ofInt (n : Int) : String := String.ofList (signed n)

/-- The text of `n / 10 ^ places`, with exactly `places` digits behind the point. -/
def fixed (places n : Nat) : List Char :=
  let ds := padded (places + 1) n
  if places = 0 then ds
  else ds.take (ds.length - places) ++ '.' :: ds.drop (ds.length - places)

/-! ## Reading -/

/-- The value of a digit. -/
def digitValue (c : Char) : Nat := c.toNat - '0'.toNat

/-- Reads digits behind the number `acc`; a number above `limit` is the problem `overflow`. -/
def accumulate (limit : Nat) (overflow : Problem) (acc : Nat) : List Char → Except Problem Nat
  | [] => .ok acc
  | c :: rest =>
    if c.isDigit then
      let next := acc * 10 + digitValue c
      if limit < next then .error overflow else accumulate limit overflow next rest
    else .error .invalidDigit

/-- Reads a numeral from `-below` to `above`. -/
def readChars (below above : Nat) : List Char → Except Problem Int
  | [] => .error .empty
  | ['-'] | ['+'] => .error .invalidDigit
  | '-' :: rest => (accumulate below .tooSmall 0 rest).map fun n => -(n : Int)
  | '+' :: rest => (accumulate above .tooLarge 0 rest).map fun n => (n : Int)
  | cs => (accumulate above .tooLarge 0 cs).map fun n => (n : Int)

/-- Reads a numeral from `-below` to `above`. -/
def read (below above : Nat) (text : String) : Except Problem Int :=
  readChars below above text.toList

/-- Reads a 32-bit integer. -/
def readInt32 (text : String) : Except Problem Int32 :=
  (read (2 ^ (31 : Nat)) (2 ^ (31 : Nat) - 1) text).map Int32.ofInt

/-- Reads a 64-bit integer. -/
def readInt64 (text : String) : Except Problem Int64 :=
  (read (2 ^ (63 : Nat)) (2 ^ (63 : Nat) - 1) text).map Int64.ofInt

/-- Reads a numeral of at most `limit` that may carry a plus sign, but no minus sign. -/
def readNatural (limit : Nat) : List Char → Except Problem Nat
  | [] => .error .empty
  | ['+'] => .error .invalidDigit
  | '+' :: rest => accumulate limit .tooLarge 0 rest
  | cs => accumulate limit .tooLarge 0 cs

end Lakehouse.Numeral
