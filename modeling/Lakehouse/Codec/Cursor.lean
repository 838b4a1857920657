import Lakehouse.Codec.Document
import Lakehouse.Json.Number
import Lakehouse.Json.Reader

/-!
# Cursors into JSON documents

A `Cursor` is a node of a JSON document together with the number of containers that may still be
opened: a document that nests deeper than `Cursor.maxDepth` is not read. Skipped members may nest as
deeply as they like.

* `Cursor.named?` — a value of an enumeration: its name, or an object whose only member has that
  name and the value null.
* `Cursor.int?` — an integer literal within bounds.

Model of what deserialising asks of a JSON document. Left out: the words for a document that is not
accepted, and the place in it.
-/

namespace Lakehouse

/-- A node of a JSON document, and how many containers may still be opened. -/
structure Cursor where
  json : Json
  depth : Nat

namespace Cursor

/-- How many containers may be open at once. -/
def maxDepth : Nat := 127

/-- The elements of an array. -/
def elements? (c : Cursor) : Option (List Cursor) :=
  match c.json, c.depth with
  | .array es, depth + 1 => some (es.map fun e => ⟨e, depth⟩)
  | _, _ => none

/-- The members of an object. -/
def members? (c : Cursor) : Option (List (Option String × Cursor)) :=
  match c.json, c.depth with
  | .object ms, depth + 1 => some (ms.map fun (name, e) => (name, ⟨e, depth⟩))
  | _, _ => none

/-- Whether the node is null. -/
def isNull (c : Cursor) : Bool :=
  match c.json with
  | .null => true
  | _ => false

/-- The text of a string. -/
def text? (c : Cursor) : Option String :=
  match c.json with
  | .string s => s
  | _ => none

instance : Document Cursor where
  isNull := isNull
  text? := text?
  elements? := elements?
  members? := members?
  positional := true

/-- A truth value. -/
def boolean? (c : Cursor) : Option Bool :=
  match c.json with
  | .boolean b => some b
  | _ => none

/-- What the literal of a number denotes. -/
def number? (c : Cursor) : Option Json.Number :=
  match c.json with
  | .number literal => Json.Number.ofLiteral literal
  | _ => none

/-- An integer from `low` to `high`. -/
def int? (low high : Int) (c : Cursor) : Option Int := do
  let n ← (← c.number?).toInt?
  if low ≤ n ∧ n ≤ high then some n else none

/-- A 32-bit integer. -/
def int32? (c : Cursor) : Option Int32 :=
  (c.int? (-2 ^ (31 : Nat)) (2 ^ (31 : Nat) - 1)).map Int32.ofInt

/-- A 64-bit integer. -/
def int64? (c : Cursor) : Option Int64 :=
  (c.int? (-2 ^ (63 : Nat)) (2 ^ (63 : Nat) - 1)).map Int64.ofInt

/-- An unsigned 32-bit integer. -/
def uint32? (c : Cursor) : Option UInt32 :=
  (c.int? 0 (2 ^ (32 : Nat) - 1)).map fun n => UInt32.ofNat n.toNat

/-- An unsigned 64-bit integer. -/
def uint64? (c : Cursor) : Option UInt64 :=
  (c.int? 0 (2 ^ (64 : Nat) - 1)).map fun n => UInt64.ofNat n.toNat

/-- A byte. -/
def byte? (c : Cursor) : Option UInt8 := (c.int? 0 255).map fun n => UInt8.ofNat n.toNat

/-- The name of a variant, and what it carries. -/
def variant? (c : Cursor) : Option (String × Option Cursor) :=
  match c.json with
  | .string s => s.map (·, none)
  | _ => do
    match ← c.members? with
    | [(name, inner)] => return (← name, some inner)
    | _ => none

/-- A value of an enumeration. -/
def named? {α : Type} (ofName? : String → Option α) (c : Cursor) : Option α := do
  let (name, inner) ← c.variant?
  if inner.all isNull then ofName? name else none

/-- Reads a text that is one document. -/
def parse {α : Type} (read : Cursor → Option α) (s : String) : Option α := do
  read ⟨← Json.parse s, maxDepth⟩

end Cursor

end Lakehouse
