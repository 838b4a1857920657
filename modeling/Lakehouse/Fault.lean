/-!
# Faults

A `Fault` is a classified failure: a `Fault.Kind`, which callers act on, and a message for people.
Kinds have a stable number and name, so reports can be grouped without reading messages.

* `Fault.Kind.isFatal` — the three kinds that say the request itself is wrong. A fatal fault stops
  the synchronisation of a table before anything is written.
* `Fault.recode` — one low-level failure can mean different things to different callers; the kind
  changes and the message stays.
* `Fault.within` — names the place where a fault was seen.

Model of `ErrorCode` and `SyncError`. An error there has one constructor for each code; here a fault
is a kind and a message.
-/

namespace Lakehouse

/-- What went wrong, as far as callers need to tell it apart. -/
inductive Fault.Kind where
  | invalidConfiguration
  | invalidPartitionSpec
  | invalidPartitionValue
  | readException
  | updateException
  | invalidSchema
  | unsupportedSchemaType
  | unsupportedFeature
  | parseException
  | catalogRefreshException
  | catalogSyncGenericException
  deriving DecidableEq, Repr

namespace Fault.Kind

/-- Every kind, in the order of the numbers. -/
def all : List Kind :=
  [.invalidConfiguration, .invalidPartitionSpec, .invalidPartitionValue, .readException,
    .updateException, .invalidSchema, .unsupportedSchemaType, .unsupportedFeature,
    .parseException, .catalogRefreshException, .catalogSyncGenericException]

/-- The stable number of a kind. -/
def number : Kind → Nat
  | invalidConfiguration => 10001
  | invalidPartitionSpec => 10002
  | invalidPartitionValue => 10003
  | readException => 10004
  | updateException => 10005
  | invalidSchema => 10006
  | unsupportedSchemaType => 10007
  | unsupportedFeature => 10008
  | parseException => 10009
  | catalogRefreshException => 10010
  | catalogSyncGenericException => 10011

/-- The stable name of a kind. -/
def name : Kind → String
  | invalidConfiguration => "INVALID_CONFIGURATION"
  | invalidPartitionSpec => "INVALID_PARTITION_SPEC"
  | invalidPartitionValue => "INVALID_PARTITION_VALUE"
  | readException => "READ_EXCEPTION"
  | updateException => "UPDATE_EXCEPTION"
  | invalidSchema => "INVALID_SCHEMA"
  | unsupportedSchemaType => "UNSUPPORTED_SCHEMA_TYPE"
  | unsupportedFeature => "UNSUPPORTED_FEATURE"
  | parseException => "PARSE_EXCEPTION"
  | catalogRefreshException => "CATALOG_REFRESH_EXCEPTION"
  | catalogSyncGenericException => "CATALOG_SYNC_GENERIC_EXCEPTION"

/-- The kind of that name. -/
def ofName? (name : String) : Option Kind :=
  all.find? fun kind => kind.name = name

/-- The words that introduce a message of this kind. -/
def label : Kind → String
  | invalidConfiguration => "Invalid configuration"
  | invalidPartitionSpec => "Invalid partition spec"
  | invalidPartitionValue => "Invalid partition value"
  | readException => "Read failed"
  | updateException => "Update failed"
  | invalidSchema => "Invalid schema"
  | unsupportedSchemaType => "Unsupported schema type"
  | unsupportedFeature => "Unsupported feature"
  | parseException => "Parse error"
  | catalogRefreshException => "Catalog refresh failed"
  | catalogSyncGenericException => "Catalog sync failed"

/-- Name and number together. -/
def title (kind : Kind) : String := s!"{kind.name}({kind.number})"

/-- The kinds that stop the synchronisation of a table before any target is touched. -/
def isFatal : Kind → Bool
  | invalidConfiguration | invalidSchema | invalidPartitionSpec => true
  | _ => false

theorem ofName?_name (kind : Kind) : ofName? kind.name = some kind := by
  cases kind <;> rfl

end Fault.Kind

/-- A classified failure. -/
structure Fault where
  kind : Fault.Kind
  message : String
  deriving DecidableEq, Repr

namespace Fault

/-- Whether the fault stops the synchronisation of a table before any target is touched. -/
def isFatal (f : Fault) : Bool := f.kind.isFatal

/-- The same failure under another kind. -/
def recode (kind : Kind) (f : Fault) : Fault := { f with kind }

/-- The same failure, with the place where it was seen in front of its message. -/
def within (place : String) (f : Fault) : Fault := { f with message := s!"{place}: {f.message}" }

/-- The whole text of a fault: label and message. -/
def text (f : Fault) : String := s!"{f.kind.label}: {f.message}"

end Fault

end Lakehouse
