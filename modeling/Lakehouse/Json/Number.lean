import Lakehouse.Json.Tree
import Lakehouse.Number.Scientific

/-!
# Numbers of JSON documents

A literal without point and exponent that fits into 64 bits is an integer. Every other literal is a
64-bit floating-point number, reached in floating-point arithmetic: the digits are taken as long as
they fit into 64 bits, and the number is multiplied or divided by a power of ten. The result is near
the literal's value, but not always the nearest number.

Model of the numbers of the JSON library that the serialised forms are read with, in the arithmetic
it has without its exact mode.
-/

namespace Lakehouse.Json

/-- What the literal of a number denotes. -/
inductive Number where
  | natural (n : UInt64)
  | negative (n : Int64)
  | float (x : Binary64)
  deriving DecidableEq

namespace Number

/-- The product of two finite numbers. -/
def mul (x y : Binary64) : Binary64 :=
  .ofRatio _ (x.isNegative != y.isNegative) (x.units * y.units)
    (Width.double.unitsPerOne * Width.double.unitsPerOne)

/-- The quotient of two finite numbers, the second not zero. -/
def div (x y : Binary64) : Binary64 := .ofRatio _ (x.isNegative != y.isNegative) x.units y.units

/-- A power of ten as a number. -/
def powerOfTen (n : Nat) : Binary64 := .ofRatio _ false (10 ^ n) 1

/-- The largest power of ten that is a finite number. -/
def maxPower : Nat := 308

/-- `x · 10 ^ exponent`, in steps of the largest power; no result when the magnitude leaves the
range. -/
def scale (x : Binary64) (exponent : Int) : Option Binary64 :=
  if 0 ≤ exponent then
    if exponent ≤ maxPower then
      let y := mul x (powerOfTen exponent.toNat)
      if y.isFinite then some y else none
    else if x.word = 0 then some x else none
  else if -(maxPower : Int) ≤ exponent then some (div x (powerOfTen (-exponent).toNat))
  else if x.word = 0 then some x
  else scale (div x (powerOfTen maxPower)) (exponent + maxPower)
termination_by (-exponent).toNat
decreasing_by simp only [maxPower] at *; omega

/-- Appends digits to a number as long as it fits into 64 bits; gives the digits left over. -/
def takeDigits (n : Nat) : List Char → Nat × List Char
  | [] => (n, [])
  | c :: rest =>
    let next := n * 10 + Numeral.digitValue c
    if next < 2 ^ (64 : Nat) then takeDigits next rest else (n, c :: rest)

/-- The floating-point number `± significand · 10 ^ exponent`. -/
def ofParts (minus : Bool) (significand : Nat) (exponent : Int) : Option Number :=
  (scale (.ofRatio _ minus significand 1) exponent).map .float

/-- The largest exponent that is looked at. -/
def maxExponent : Int := 2 ^ (31 : Nat) - 1

/-- The exponent that follows a literal's digits: whether it is positive, and its digits. -/
def splitExponent : List Char → Option (Bool × List Char)
  | _ :: '-' :: ds => some (false, ds)
  | _ :: '+' :: ds => some (true, ds)
  | _ :: ds => some (true, ds)
  | [] => none

/-- The number of a literal, given its sign, its digits before and behind the point, and its
exponent. -/
def ofDigits (minus : Bool) (whole fraction : List Char) (exponent : Option (Bool × List Char)) :
    Option Number :=
  let (n, left) := takeDigits 0 whole
  let (significand, rest) := takeDigits n fraction
  let shift : Int := left.length - (fraction.length - rest.length : Nat)
  match exponent with
  | none => ofParts minus significand shift
  | some (positive, ds) =>
    let e := Nat.ofDigitChars 10 ds 0
    if maxExponent < e then
      if significand ≠ 0 ∧ positive then none else some (.float (.ofWord _ minus 0))
    else ofParts minus significand
      (max (-maxExponent - 1) (min maxExponent (if positive then shift + e else shift - e)))

/-- The integer that digits denote, or the floating-point number nearest it when it needs more than
64 bits. The negative zero is a floating-point number. -/
def ofWhole (minus : Bool) (whole : List Char) : Option Number :=
  let n := Nat.ofDigitChars 10 whole 0
  if minus then
    if 0 < n ∧ n ≤ 2 ^ (63 : Nat) then some (.negative (Int64.ofInt (-n)))
    else ofDigits minus whole [] none
  else if n < 2 ^ (64 : Nat) then some (.natural (UInt64.ofNat n))
  else ofDigits minus whole [] none

/-- What the literal of a number denotes; nothing when its magnitude leaves the range. -/
def ofLiteral (literal : String) : Option Number :=
  let (minus, cs) := match literal.toList with
    | '-' :: rest => (true, rest)
    | cs => (false, cs)
  let whole := cs.takeWhile Char.isDigit
  match cs.dropWhile Char.isDigit with
  | [] => ofWhole minus whole
  | '.' :: rest => ofDigits minus whole (rest.takeWhile Char.isDigit)
      (splitExponent (rest.dropWhile Char.isDigit))
  | rest => ofDigits minus whole [] (splitExponent rest)

/-- The value of a number that is an integer. -/
def toInt? : Number → Option Int
  | natural n => some n.toNat
  | negative n => some n.toInt
  | float _ => none

/-- The number in 64 bits. -/
def toDouble : Number → Binary64
  | natural n => .ofInt _ n.toNat
  | negative n => .ofInt _ n.toInt
  | float x => x

/-- The number in 32 bits. -/
def toSingle : Number → Binary32
  | natural n => .ofInt _ n.toNat
  | negative n => .ofInt _ n.toInt
  | float x => x.convert .single

end Number

end Lakehouse.Json
