import Lakehouse.Json.Tree

/-!
# Reading JSON documents

`Json.parse` reads a text that is one document, with blanks between its tokens and around it. A
reader takes the characters in front and gives what they denote and the characters that follow.

Model of the texts that the JSON library accepts. Left out: the words for a text that it does not
accept, and the place in it.
-/

namespace Lakehouse.Json

/-- Whether a character may stand between tokens. -/
def isSpace (c : Char) : Bool := c == ' ' || c == '\n' || c == '\t' || c == '\r'

/-- The characters from the next token on. -/
def skipSpace (cs : List Char) : List Char := cs.dropWhile isSpace

/-! ## Numbers -/

/-- Digits that do not begin with a superfluous zero. -/
def takeWhole (cs : List Char) : Option (List Char × List Char) :=
  match cs with
  | '0' :: rest => if rest.head?.any Char.isDigit then none else some (['0'], rest)
  | _ =>
    let ds := cs.takeWhile Char.isDigit
    if ds = [] then none else some (ds, cs.dropWhile Char.isDigit)

/-- The point and the digits behind it, if a point follows. -/
def takeFraction (cs : List Char) : Option (List Char × List Char) :=
  match cs with
  | '.' :: rest =>
    let ds := rest.takeWhile Char.isDigit
    if ds = [] then none else some ('.' :: ds, rest.dropWhile Char.isDigit)
  | _ => some ([], cs)

/-- The sign in front of an exponent's digits, if there is one. -/
def takeSign (cs : List Char) : List Char × List Char :=
  match cs with
  | '+' :: rest => (['+'], rest)
  | '-' :: rest => (['-'], rest)
  | _ => ([], cs)

/-- The exponent, if one follows. -/
def takeExponent (cs : List Char) : Option (List Char × List Char) :=
  match cs with
  | c :: rest =>
    if c = 'e' ∨ c = 'E' then
      let (sign, rest) := takeSign rest
      let ds := rest.takeWhile Char.isDigit
      if ds = [] then none else some (c :: sign ++ ds, rest.dropWhile Char.isDigit)
    else some ([], cs)
  | [] => some ([], cs)

/-- A number without its minus sign. -/
def takeUnsigned (cs : List Char) : Option (List Char × List Char) := do
  let (whole, cs) ← takeWhole cs
  let (fraction, cs) ← takeFraction cs
  let (exponent, cs) ← takeExponent cs
  return (whole ++ fraction ++ exponent, cs)

/-- The literal of a number. -/
def takeNumber (cs : List Char) : Option (List Char × List Char) :=
  match cs with
  | '-' :: rest => (takeUnsigned rest).map fun (literal, rest) => ('-' :: literal, rest)
  | _ => takeUnsigned cs

/-! ## Strings -/

/-- The value of a hexadecimal digit. -/
def hexValue? (c : Char) : Option Nat :=
  if c.isDigit then some (c.toNat - '0'.toNat)
  else if 'a' ≤ c ∧ c ≤ 'f' then some (c.toNat - 'a'.toNat + 10)
  else if 'A' ≤ c ∧ c ≤ 'F' then some (c.toNat - 'A'.toNat + 10)
  else none

/-- The value of four hexadecimal digits. -/
def hexUnit? (a b c d : Char) : Option Nat := do
  return ((← hexValue? a) * 16 + (← hexValue? b)) * 256 + (← hexValue? c) * 16 + (← hexValue? d)

/-- A piece of a string literal: a character, or half of a surrogate pair. -/
inductive Unit where
  | char (c : Char)
  | high (n : Nat)
  | low (n : Nat)
  deriving DecidableEq

/-- The piece that an escaped code unit stands for. -/
def Unit.ofNat (n : Nat) : Unit :=
  if 0xd800 ≤ n ∧ n < 0xdc00 then .high n
  else if 0xdc00 ≤ n ∧ n < 0xe000 then .low n
  else .char (Char.ofNat n)

/-- The character that an escape of one letter stands for. -/
def shortEscape? : Char → Option Char
  | '"' => some '"'
  | '\\' => some '\\'
  | '/' => some '/'
  | 'b' => some '\x08'
  | 'f' => some '\x0c'
  | 'n' => some '\n'
  | 'r' => some '\r'
  | 't' => some '\t'
  | _ => none

/-- The pieces of a string literal behind its opening quote, and what follows its closing quote. -/
def takeUnits : List Char → Option (List Unit × List Char)
  | '"' :: rest => some ([], rest)
  | '\\' :: 'u' :: a :: b :: c :: d :: rest => do
    let n ← hexUnit? a b c d
    let (units, rest) ← takeUnits rest
    return (Unit.ofNat n :: units, rest)
  | '\\' :: c :: rest => do
    let e ← shortEscape? c
    let (units, rest) ← takeUnits rest
    return (.char e :: units, rest)
  | c :: rest =>
    if c.toNat < 0x20 ∨ c = '\\' then none
    else do
      let (units, rest) ← takeUnits rest
      return (.char c :: units, rest)
  | [] => none

/-- The characters of a string literal; none when half of a surrogate pair stands alone. -/
def joinUnits : List Unit → Option (List Char)
  | [] => some []
  | .char c :: rest => (joinUnits rest).map (c :: ·)
  | .high h :: .low l :: rest =>
    (joinUnits rest).map (Char.ofNat (0x10000 + (h - 0xd800) * 0x400 + (l - 0xdc00)) :: ·)
  | _ => none

/-- The string behind an opening quote. -/
def takeString (cs : List Char) : Option (Option String × List Char) := do
  let (units, rest) ← takeUnits cs
  return ((joinUnits units).map String.ofList, rest)

/-! ## Documents -/

mutual

/-- Reads one document in at most `steps` steps. -/
def takeValue (steps : Nat) (cs : List Char) : Option (Json × List Char) :=
  match steps with
  | 0 => none
  | steps + 1 =>
    match skipSpace cs with
    | 'n' :: 'u' :: 'l' :: 'l' :: rest => some (.null, rest)
    | 't' :: 'r' :: 'u' :: 'e' :: rest => some (.boolean true, rest)
    | 'f' :: 'a' :: 'l' :: 's' :: 'e' :: rest => some (.boolean false, rest)
    | '"' :: rest => (takeString rest).map fun (s, rest) => (.string s, rest)
    | '[' :: rest =>
      match skipSpace rest with
      | ']' :: rest => some (.array [], rest)
      | rest => (takeElements steps rest).map fun (es, rest) => (.array es, rest)
    | '\x7b' :: rest =>
      match skipSpace rest with
      | '\x7d' :: rest => some (.object [], rest)
      | rest => (takeMembers steps rest).map fun (ms, rest) => (.object ms, rest)
    | rest => (takeNumber rest).map fun (n, rest) => (.number (String.ofList n), rest)

/-- Reads the elements of an array up to its closing bracket. -/
def takeElements (steps : Nat) (cs : List Char) : Option (List Json × List Char) :=
  match steps with
  | 0 => none
  | steps + 1 => do
    let (e, rest) ← takeValue steps cs
    match skipSpace rest with
    | ']' :: rest => return ([e], rest)
    | ',' :: rest =>
      let (es, rest) ← takeElements steps rest
      return (e :: es, rest)
    | _ => none

/-- Reads the members of an object up to its closing brace. -/
def takeMembers (steps : Nat) (cs : List Char) :
    Option (List (Option String × Json) × List Char) :=
  match steps with
  | 0 => none
  | steps + 1 =>
    match skipSpace cs with
    | '"' :: rest => do
      let (name, rest) ← takeString rest
      match skipSpace rest with
      | ':' :: rest =>
        let (e, rest) ← takeValue steps rest
        match skipSpace rest with
        | '\x7d' :: rest => return ([(name, e)], rest)
        | ',' :: rest =>
          let (ms, rest) ← takeMembers steps rest
          return ((name, e) :: ms, rest)
        | _ => none
      | _ => none
    | _ => none

end

/-- Reads a text that is one document. Each character is good for at most two steps. -/
def parse (s : String) : Option Json := do
  let cs := s.toList
  let (j, rest) ← takeValue (2 * cs.length + 1) cs
  if skipSpace rest = [] then return j else none

end Lakehouse.Json
