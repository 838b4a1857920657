import Lakehouse.Partition.Spec
import Lakehouse.Schema.Basic
import Lakehouse.Table.Checkpoint

/-!
# Tables

A table is described apart from any format: its schema, its partition columns, and the position in
its history that the description belongs to.

* `Table.make` — the schema has to be a record, and each partition column has to be one of its
  columns, not a structural one, and a point in time if its transform makes buckets of time.

Model of `InternalTable`.
-/

namespace Lakehouse

/-- A table at one point in its history. -/
structure Table where
  name : String
  basePath : String
  /-- Where the data files are, if not under the base path. -/
  dataPath : Option String
  sourceFormat : String
  schema : Schema
  partitionFields : List PartitionField
  latestCommit : Checkpoint
  deriving DecidableEq

namespace Table

/-- Why a table cannot be described. -/
inductive Problem where
  | notRecord (table : String) (type : DataType)
  | missingField (table field : String)
  | notTemporal (transform : Transform) (type : DataType) (field : String)
  | structuralField (field : String) (type : DataType)
  deriving DecidableEq

/-- The fault of a problem: the schema is invalid, or the partitioning is. -/
def Problem.fault : Problem → Fault
  | notRecord table type =>
    ⟨.invalidSchema, s!"table '{table}' schema must be a RECORD, found {type.name}"⟩
  | missingField table field =>
    ⟨.invalidPartitionSpec, s!"partition field '{field}' does not exist in table '{table}'"⟩
  | notTemporal transform type field => ⟨.invalidPartitionSpec,
      s!"{transform.name} transform cannot be applied to {type.name} field '{field}'"⟩
  | structuralField field type =>
    ⟨.invalidPartitionSpec, s!"partition field '{field}' is a {type.name}"⟩

/-- Checks one partition column. -/
def checkField (name : String) (schema : Schema) (p : PartitionField) : Except Problem Unit :=
  match schema.find? p.source with
  | none => .error (.missingField name p.source)
  | some field =>
    let type := field.schema.type
    if p.transform.isTimeBased && !type.isTemporal then
      .error (.notTemporal p.transform type p.source)
    else if type.isStructural then .error (.structuralField p.source type)
    else .ok ()

/-- Checks a table's schema and partition columns. -/
def check (t : Table) : Except Problem Unit :=
  if t.schema.type ≠ .record then .error (.notRecord t.name t.schema.type)
  else t.partitionFields.forM (checkField t.name t.schema)

/-- The table, if its schema and partition columns fit together. -/
def make (t : Table) : Except Fault Table := do
  t.check.mapError Problem.fault
  return t

/-- Where the data files are. -/
def files (t : Table) : String := t.dataPath.getD t.basePath

/-- Whether the table has partition columns. -/
def isPartitioned (t : Table) : Bool := !t.partitionFields.isEmpty

end Table

end Lakehouse
