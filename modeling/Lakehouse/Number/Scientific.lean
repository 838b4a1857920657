import Lakehouse.Number.Shortest

/-!
# Floating-point numbers from text

A text denotes a number when it is an optional sign followed by digits with at most one point, at
least one digit on either side of it, and an optional exponent; or one of the words `inf`,
`infinity` and `nan` in any case. The number is the one nearest the decimal, so a magnitude beyond
the largest number is an infinity.

Model of how floating-point numbers are parsed.
-/

namespace Lakehouse.Scientific

/-- Why a text denotes no floating-point number. -/
inductive Problem where
  | empty
  | invalid
  deriving DecidableEq, Repr

/-- The words for a problem. -/
def Problem.message : Problem → String
  | empty => "cannot parse float from empty string"
  | invalid => "invalid float literal"

/-- An exponent grows no further than this many by reading more digits: beyond it every number is
zero or infinite. -/
def exponentLimit : Nat := 65536

/-- The value of the digits of an exponent. -/
def exponentValue (ds : List Char) : Nat :=
  ds.foldl (fun n c => if n < exponentLimit then n * 10 + Numeral.digitValue c else n) 0

/-- Reads what may stand behind the digits: nothing, or an exponent. -/
def readExponent : List Char → Option Int
  | [] => some 0
  | c :: rest =>
    if c = 'e' ∨ c = 'E' then
      let (negative, ds) := match rest with
        | '-' :: ds => (true, ds)
        | '+' :: ds => (false, ds)
        | ds => (false, ds)
      if ds ≠ [] ∧ ds.all Char.isDigit then
        some (if negative then -(exponentValue ds : Int) else exponentValue ds)
      else none
    else none

/-- Reads digits with at most one point, then an exponent. -/
def readDecimal (cs : List Char) : Option Scientific :=
  let whole := cs.takeWhile Char.isDigit
  let (places, rest) := match cs.dropWhile Char.isDigit with
    | '.' :: r => (r.takeWhile Char.isDigit, r.dropWhile Char.isDigit)
    | r => ([], r)
  if whole = [] ∧ places = [] then none
  else (readExponent rest).map fun e =>
    ⟨Nat.ofDigitChars 10 (whole ++ places) 0, e - places.length⟩

/-- Reads a number without its sign. -/
def readUnsigned (w : Width) (negative : Bool) (cs : List Char) : Option (Binary w) :=
  match readDecimal cs with
  | some s => some (Binary.ofRatio w negative s.num s.den)
  | none =>
    let name := cs.map Char.toLower
    if name = "inf".toList ∨ name = "infinity".toList then some (Binary.infinity w negative)
    else if name = "nan".toList then some (Binary.nan w)
    else none

/-- Reads a number of width `w`. -/
def read (w : Width) (text : String) : Except Problem (Binary w) :=
  match text.toList with
  | [] => .error .empty
  | '-' :: rest => (readUnsigned w true rest).elim (.error .invalid) .ok
  | '+' :: rest => (readUnsigned w false rest).elim (.error .invalid) .ok
  | cs => (readUnsigned w false cs).elim (.error .invalid) .ok

end Lakehouse.Scientific
