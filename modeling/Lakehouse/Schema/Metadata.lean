import Lakehouse.Calendar.Precision
import Lakehouse.Text.Quoted

/-!
# Column metadata

Besides its type a column carries up to five entries of metadata, one for each `Metadata.Key`. An
entry may hold a unit of time, a number or a list of symbols; which of them a key needs depends on
the type of the column and is checked where a schema is assembled.

Model of `MetadataKey` and `MetadataValue`. A map with five possible keys is a record of five
entries.
-/

namespace Lakehouse

/-- What an entry of metadata is about. -/
inductive Metadata.Key where
  | timestampPrecision
  | decimalScale
  | decimalPrecision
  | fixedBytesSize
  | enumValues
  deriving DecidableEq, Repr

/-- What an entry of metadata says. -/
inductive Metadata.Entry where
  | precision (p : Precision)
  | number (n : UInt32)
  | symbols (names : List String)
  deriving DecidableEq, Repr

/-- The metadata of a column: at most one entry for each key. -/
structure Metadata where
  timestampPrecision : Option Metadata.Entry
  decimalScale : Option Metadata.Entry
  decimalPrecision : Option Metadata.Entry
  fixedBytesSize : Option Metadata.Entry
  enumValues : Option Metadata.Entry
  deriving DecidableEq, Repr

namespace Metadata

namespace Key

/-- Every key, in order. -/
def all : List Key :=
  [.timestampPrecision, .decimalScale, .decimalPrecision, .fixedBytesSize, .enumValues]

/-- The name of a key. -/
def name : Key → String
  | timestampPrecision => "TIMESTAMP_PRECISION"
  | decimalScale => "DECIMAL_SCALE"
  | decimalPrecision => "DECIMAL_PRECISION"
  | fixedBytesSize => "FIXED_BYTES_SIZE"
  | enumValues => "ENUM_VALUES"

/-- The key of that name. -/
def ofName? (name : String) : Option Key := all.find? fun k => k.name = name

/-- How a key is named in a message. -/
def label : Key → String
  | timestampPrecision => "TimestampPrecision"
  | decimalScale => "DecimalScale"
  | decimalPrecision => "DecimalPrecision"
  | fixedBytesSize => "FixedBytesSize"
  | enumValues => "EnumValues"

theorem ofName?_name (k : Key) : ofName? k.name = some k := by cases k <;> rfl

end Key

/-- How an entry is named in a message. -/
def Entry.label : Entry → String
  | precision .millis => "Precision(Millis)"
  | precision .micros => "Precision(Micros)"
  | number n => s!"Number({n.toNat})"
  | symbols names => s!"Symbols({Text.quoteList names})"

/-- No metadata. -/
def empty : Metadata := ⟨none, none, none, none, none⟩

/-- The entry for a key. -/
def get? (m : Metadata) : Key → Option Entry
  | .timestampPrecision => m.timestampPrecision
  | .decimalScale => m.decimalScale
  | .decimalPrecision => m.decimalPrecision
  | .fixedBytesSize => m.fixedBytesSize
  | .enumValues => m.enumValues

/-- The metadata with a new entry for a key, in place of an old one. -/
def set (m : Metadata) (k : Key) (e : Entry) : Metadata :=
  match k with
  | .timestampPrecision => { m with timestampPrecision := some e }
  | .decimalScale => { m with decimalScale := some e }
  | .decimalPrecision => { m with decimalPrecision := some e }
  | .fixedBytesSize => { m with fixedBytesSize := some e }
  | .enumValues => { m with enumValues := some e }

/-- The number an entry for a key holds, if it holds one. -/
def number? (m : Metadata) (k : Key) : Option UInt32 :=
  match m.get? k with
  | some (.number n) => some n
  | _ => none

/-- The entries, in the order of their keys. -/
def entries (m : Metadata) : List (Key × Entry) :=
  Key.all.filterMap fun k => (m.get? k).map (k, ·)

/-- The metadata with the given entries; of two for one key the later counts. -/
def ofEntries (es : List (Key × Entry)) : Metadata :=
  es.foldl (fun m (k, e) => m.set k e) empty

theorem get?_set (m : Metadata) (k : Key) (e : Entry) (k' : Key) :
    (m.set k e).get? k' = if k' = k then some e else m.get? k' := by
  cases k <;> cases k' <;> rfl

end Metadata

end Lakehouse
