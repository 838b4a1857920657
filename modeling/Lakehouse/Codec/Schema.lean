import Lakehouse.Codec.Cursor
import Lakehouse.Schema.Basic

/-!
# Schemas as JSON

A schema is written node by node, with its metadata as an object of its keys. A metadata entry
carries no mark of its kind: a name of a unit of time is a unit, a number is a number, a list of
strings is a list of symbols.

`Schema.ofJson?` reads any schema that is written in this form; it does not ask for what
`Schema.build` asks for.

Model of the serialised forms of `Schema`, `Field`, `MetadataKey` and `MetadataValue`.
-/

namespace Lakehouse

namespace Metadata

/-- An entry as JSON. -/
def Entry.toJson : Entry → Json
  | precision p => .text p.name
  | number n => .integer n.toNat
  | symbols names => .list .text names

/-- Reads an entry. -/
def Entry.ofJson? (c : Cursor) : Option Entry :=
  match c.named? Precision.ofName? with
  | some p => some (.precision p)
  | none =>
    match c.uint32? with
    | some n => some (.number n)
    | none => (Document.list? Cursor.text? c).map .symbols

/-- Metadata as JSON. -/
def toJson (m : Metadata) : Json := .record (m.entries.map fun (k, e) => (k.name, e.toJson))

/-- Reads metadata. Other keys than the known ones are refused; of two entries for one key the later
counts. -/
def ofJson? (c : Cursor) : Option Metadata := do
  let entries ← (← c.members?).mapM fun (name, value) => do
    return (← Key.ofName? (← name), ← Entry.ofJson? value)
  return ofEntries entries

end Metadata

/-- The members of a schema, in order. -/
def Schema.memberNames : List String :=
  ["name", "data_type", "comment", "nullable", "fields", "metadata"]

/-- The members of a field, in order. -/
def Field.memberNames : List String := ["name", "field_id", "schema"]

mutual

/-- A schema as JSON. -/
def Schema.toJson : Schema → Json
  | ⟨name, type, comment, nullable, fields, metadata⟩ =>
    .record [("name", .text name), ("data_type", .text type.name),
      ("comment", .optional .text comment), ("nullable", .boolean nullable),
      ("fields", .array (Field.listToJson fields)), ("metadata", metadata.toJson)]

/-- A list of fields as JSON. -/
def Field.listToJson : List Field → List Json
  | [] => []
  | ⟨name, id, schema⟩ :: rest =>
    .record [("name", .text name), ("field_id", .optional (fun n => .integer n.toInt) id),
      ("schema", schema.toJson)] :: Field.listToJson rest

end

/-- A field as JSON. -/
def Field.toJson (f : Field) : Json :=
  .record [("name", .text f.name), ("field_id", .optional (fun n => .integer n.toInt) f.id),
    ("schema", f.schema.toJson)]

/-- Reads a field over a way to read its schema. -/
def Field.readWith (read : Cursor → Option Schema) (c : Cursor) : Option Field := do
  match ← Document.fields? memberNames 3 c with
  | [name, id, schema] =>
    return {
      name := ← Document.required Cursor.text? name
      id := ← Document.optional Cursor.int32? id
      schema := ← Document.required read schema }
  | _ => none

/-- Reads a schema of at most `levels` levels. -/
def Schema.readLevels (levels : Nat) (c : Cursor) : Option Schema :=
  match levels with
  | 0 => none
  | levels + 1 => do
    match ← Document.fields? memberNames 6 c with
    | [name, type, comment, nullable, fields, metadata] =>
      return {
        name := ← Document.required Cursor.text? name
        type := ← Document.required (Cursor.named? DataType.ofName?) type
        comment := ← Document.optional Cursor.text? comment
        nullable := ← Document.required Cursor.boolean? nullable
        fields := ← Document.required (Document.list? (Field.readWith (readLevels levels))) fields
        metadata := ← Document.required Metadata.ofJson? metadata }
    | _ => none

/-- Reads a schema. A schema has no more levels than containers may be opened. -/
def Schema.ofJson? (c : Cursor) : Option Schema := readLevels (c.depth + 1) c

/-- Reads a field. -/
def Field.ofJson? (c : Cursor) : Option Field := readWith Schema.ofJson? c

end Lakehouse
