import Lakehouse.Arrow.DataType
import Lakehouse.Number.Bounded
import Lakehouse.Schema.Basic

/-!
# Schemas in memory

A table's schema becomes a list of Arrow columns and back.

* `Arrow.columns` — the Arrow columns of a record. A list holds its part `element`, a map entries
  of its parts `key`, which is never null, and `value`. Symbols and identifiers become text.
* `Arrow.schema` — the schema of Arrow columns. Narrow integers widen, and the three encodings of
  text and of bytes become one; a type that tables do not have is refused.

Model of `to_arrow_schema` and `from_arrow_schema`. Left out: the metadata of Arrow fields and
schemas, which neither of them reads or writes.
-/

namespace Lakehouse.Arrow

/-! ## To Arrow -/

/-- A structural column without one of its parts. -/
def missingChild (type : Lakehouse.DataType) (name child : String) : Fault :=
  ⟨.invalidSchema, s!"{type.name} '{name}' has no '{child}' child"⟩

/-- The Arrow unit for a precision; milliseconds where none is declared. -/
def unitOf : Option Precision → TimeUnit
  | some .micros => .microsecond
  | _ => .millisecond

/-- The Arrow type for a number of bytes. -/
def fixedOfSize (size : UInt32) : Except Fault DataType :=
  if size.toNat < 2 ^ (31 : Nat) then .ok (.fixedSizeBinary (Int32.ofNat size.toNat))
  else .error ⟨.unsupportedSchemaType, s!"fixed size {size.toNat} exceeds Arrow limits"⟩

/-- The Arrow type for a precision and scale. -/
def decimalOf (precision scale : UInt32) : Except Fault DataType :=
  if precision ≤ 38 ∧ scale ≤ 127 then .ok (.decimal128 precision.toUInt8 (Int8.ofNat scale.toNat))
  else .error ⟨.unsupportedSchemaType,
    s!"decimal({precision.toNat}, {scale.toNat}) exceeds Decimal128"⟩

/-- The Arrow type of a column without parts. -/
def leafType (s : Schema) : Except Fault DataType :=
  match s.type with
  | .enumeration | .string | .uuid => .ok (.plain .utf8)
  | .bytes => .ok (.plain .binary)
  | .fixed => fixedOfSize (s.fixedSize?.getD 0)
  | .boolean => .ok (.plain .boolean)
  | .int => .ok (.plain .int32)
  | .long => .ok (.plain .int64)
  | .float => .ok (.plain .float32)
  | .double => .ok (.plain .float64)
  | .date => .ok (.plain .date32)
  | .timestamp => .ok (.timestamp (unitOf s.timestampPrecision?) (some "UTC"))
  | .timestampNtz => .ok (.timestamp (unitOf s.timestampPrecision?) none)
  | .decimal => decimalOf (s.decimalPrecision?.getD 0) (s.decimalScale?.getD 0)
  | .null | .record | .list | .map => .ok (.plain .null)

/-- The entries of a map. -/
def entries (key value : DataType) (nullable : Bool) : DataType :=
  .map (.mk "entries" (.struct [.mk "key" key false, .mk "value" value nullable]) false)

mutual

/-- The Arrow type of a column. -/
def typeOf : Schema → Except Fault DataType
  | ⟨_, .record, _, _, fields, _⟩ => do return .struct (← columnsOf fields)
  | ⟨name, .list, _, _, fields, _⟩ =>
    match part "element" fields with
    | none => .error (missingChild .list name "element")
    | some element => do return .list (.mk "element" (← element.1) element.2)
  | ⟨name, .map, _, _, fields, _⟩ =>
    match part "key" fields, part "value" fields with
    | none, _ => .error (missingChild .map name "key")
    | _, none => .error (missingChild .map name "value")
    | some key, some value => do return entries (← key.1) (← value.1) value.2
  | s => leafType s

/-- The Arrow type of the first part of that name, and whether it may be null. -/
def part (child : String) : List Lakehouse.Field → Option (Except Fault DataType × Bool)
  | [] => none
  | ⟨name, _, schema⟩ :: rest =>
    if name = child then some (typeOf schema, schema.nullable) else part child rest

/-- The Arrow columns of fields. -/
def columnsOf : List Lakehouse.Field → Except Fault (List Field)
  | [] => .ok []
  | ⟨name, _, schema⟩ :: rest => do
    let type ← typeOf schema
    return .mk name type schema.nullable :: (← columnsOf rest)

end

/-- The Arrow columns of a record. -/
def columns (s : Schema) : Except Fault (List Field) :=
  if s.type = .record then columnsOf s.fields
  else .error ⟨.invalidSchema,
    s!"only RECORD schemas map to Arrow schemas, found {s.type.name}"⟩

/-! ## From Arrow -/

/-- An Arrow type that a column cannot have. -/
def unsupported (message : String) : Fault := ⟨.unsupportedSchemaType, message⟩

/-- The precision for the unit of a column. -/
def precisionOf (name : String) : TimeUnit → Except Fault Precision
  | .millisecond => .ok .millis
  | .microsecond => .ok .micros
  | unit => .error (unsupported s!"timestamp unit {unit.name} of field '{name}'")

/-- The column type for an Arrow type without parameters. -/
def ofPlain? : Plain → Option Lakehouse.DataType
  | .utf8 | .largeUtf8 | .utf8View => some .string
  | .binary | .largeBinary | .binaryView => some .bytes
  | .boolean => some .boolean
  | .int8 | .int16 | .int32 => some .int
  | .int64 => some .long
  | .float32 => some .float
  | .float64 => some .double
  | .date32 => some .date
  | .null => some .null
  | .uint8 | .uint16 | .uint32 | .uint64 | .float16 | .date64 => none

/-- A node over parts that are already built. -/
def node (name : String) (type : Lakehouse.DataType) (nullable : Bool)
    (fields : List Lakehouse.Field) (metadata : Metadata) : Except Fault Schema :=
  Schema.build ⟨name, type, none, nullable, fields, metadata⟩

/-- The node for an Arrow type that has no parts. -/
def ofLeaf (name : String) (nullable : Bool) (type : DataType) : Except Fault Schema :=
  let unmapped : Except Fault Schema :=
    .error (unsupported s!"Arrow type {type.text} of field '{name}' has no canonical mapping")
  match type with
  | .plain p =>
    match ofPlain? p with
    | some t => node name t nullable [] .empty
    | none => unmapped
  | .fixedSizeBinary size =>
    if size < 0 then .error (unsupported s!"negative fixed size on field '{name}'")
    else node name .fixed nullable []
      (Metadata.empty.set .fixedBytesSize (.number (.ofNat size.toInt.toNat)))
  | .timestamp unit zone => do
    let precision ← precisionOf name unit
    node name (if zone.isSome then .timestamp else .timestampNtz) nullable []
      (Metadata.empty.set .timestampPrecision (.precision precision))
  | .decimal128 precision scale =>
    if scale < 0 then .error (unsupported s!"negative decimal scale on field '{name}'")
    else node name .decimal nullable []
      ((Metadata.empty.set .decimalPrecision (.number precision.toUInt32)).set .decimalScale
        (.number (.ofNat scale.toInt.toNat)))
  | _ => unmapped

mutual

/-- The node for a column of an Arrow type. -/
def ofType (name : String) (nullable : Bool) : DataType → Except Fault Schema
  | .struct fields => do node name .record nullable (← ofColumns fields) .empty
  | .list element => do
    node name .list nullable [⟨"element", none, ← ofColumn element⟩] .empty
  | .largeList element => do
    node name .list nullable [⟨"element", none, ← ofColumn element⟩] .empty
  | .map (.mk _ (.struct [key, value]) _) => do
    let key ← ofColumn key
    let value ← ofColumn value
    node name .map nullable [⟨"key", none, key⟩, ⟨"value", none, value⟩] .empty
  | .map (.mk _ (.struct fields) _) =>
    .error (unsupported s!"map field '{name}' entries have {fields.length} children")
  | .map _ => .error (unsupported s!"map field '{name}' without struct entries")
  | type => ofLeaf name nullable type

/-- The node for an Arrow column. -/
def ofColumn : Field → Except Fault Schema
  | .mk name type nullable => ofType name nullable type

/-- The fields for Arrow columns. -/
def ofColumns : List Field → Except Fault (List Lakehouse.Field)
  | [] => .ok []
  | .mk name type nullable :: rest => do
    let schema ← ofType name nullable type
    return ⟨name, none, schema⟩ :: (← ofColumns rest)

end

/-- The record of that name with the given Arrow columns. -/
def schema (name : String) (columns : List Field) : Except Fault Schema := do
  node name .record false (← ofColumns columns) .empty

end Lakehouse.Arrow
