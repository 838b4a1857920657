import Lakehouse.Number.Shortest
import Lakehouse.Text.Quoted

/-!
# JSON documents

A document is a tree. Numbers keep their literal text, because readers of different types read one
literal differently; members keep their order and may repeat a name. A string is absent when one of
its escapes names no character: such a string can be skipped, but it cannot be read.

* `Json.render` — the document without any blanks.
* `Json.ofFloat` — the literal of a floating-point number.

Model of what the JSON library writes, without its indented form.
-/

namespace Lakehouse

/-- A JSON document. -/
inductive Json where
  | null
  | boolean (b : Bool)
  | number (literal : String)
  | string (s : Option String)
  | array (elements : List Json)
  | object (members : List (Option String × Json))

namespace Json

/-! ## Building -/

/-- A string. -/
def text (s : String) : Json := .string (some s)

/-- An integer. -/
def integer (n : Int) : Json := .number (Numeral.ofInt n)

/-- An object with the given members. -/
def record (members : List (String × Json)) : Json :=
  .object (members.map fun (name, value) => (some name, value))

/-- A value that may be absent. -/
def optional {α : Type} (encode : α → Json) : Option α → Json
  | some a => encode a
  | none => .null

/-- A list. -/
def list {α : Type} (encode : α → Json) (as : List α) : Json := .array (as.map encode)

/-- The literal of digits with a point behind the first of them, and the exponent. -/
def exponential (ds : List Char) (exponent : Int) : List Char :=
  let places := match ds with
    | [d] => [d]
    | d :: rest => d :: '.' :: rest
    | [] => []
  let sign := if exponent < 0 then '-' else '+'
  places ++ 'e' :: sign :: Numeral.digits exponent.natAbs

/-- The literal of a decimal. From the fifth place behind the point to the sixteenth digit before it
the digits stand in place, with at least one digit on either side; otherwise with an exponent. -/
def floatDigits (s : Scientific) : List Char :=
  let ds := Numeral.digits s.coefficient
  let exponent := s.exponent + ds.length - 1
  if -5 ≤ exponent ∧ exponent ≤ 15 then
    if 0 ≤ s.exponent then s.plain ++ ['.', '0'] else s.plain
  else exponential ds exponent

/-- A floating-point number, in the fewest digits that read back; of two equally near decimals the
even one. A number that is not finite has no literal and becomes null. -/
def ofFloat {w : Width} (x : Binary w) : Json :=
  if x.isFinite then
    .number (String.ofList ((if x.isNegative then ['-'] else []) ++ floatDigits (x.shortest .even)))
  else .null

/-! ## Writing -/

/-- A character as it stands in a string literal. -/
def escape (c : Char) : List Char :=
  match c with
  | '"' => ['\\', '"']
  | '\\' => ['\\', '\\']
  | '\x08' => ['\\', 'b']
  | '\x0c' => ['\\', 'f']
  | '\n' => ['\\', 'n']
  | '\r' => ['\\', 'r']
  | '\t' => ['\\', 't']
  | c =>
    if c.toNat < 0x20 then
      ['\\', 'u', '0', '0', Nat.digitChar (c.toNat / 16), Nat.digitChar (c.toNat % 16)]
    else [c]

/-- A string literal. -/
def renderString (s : String) : List Char := '"' :: s.toList.flatMap escape ++ ['"']

mutual

/-- The document without any blanks. -/
def renderChars : Json → List Char
  | .null => "null".toList
  | .boolean b => if b then "true".toList else "false".toList
  | .number literal => literal.toList
  | .string s => renderString (s.getD "")
  | .array elements => '[' :: renderElements elements ++ [']']
  | .object members => '\x7b' :: renderMembers members ++ ['\x7d']

/-- Elements with commas between them. -/
def renderElements : List Json → List Char
  | [] => []
  | [e] => renderChars e
  | e :: rest => renderChars e ++ ',' :: renderElements rest

/-- Members with commas between them. -/
def renderMembers : List (Option String × Json) → List Char
  | [] => []
  | [(name, e)] => renderString (name.getD "") ++ ':' :: renderChars e
  | (name, e) :: rest =>
    renderString (name.getD "") ++ ':' :: renderChars e ++ ',' :: renderMembers rest

end

/-- The document without any blanks. -/
def render (j : Json) : String := String.ofList j.renderChars

end Json

end Lakehouse
