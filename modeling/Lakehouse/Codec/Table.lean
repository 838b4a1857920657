import Lakehouse.Calendar.Rfc3339
import Lakehouse.Codec.Schema
import Lakehouse.Codec.Value
import Lakehouse.Format.Basic
import Lakehouse.Table.Snapshot

/-!
# Tables as JSON

Partitions, statistics, data files, tables, snapshots and changes. Times are written in the form of
RFC 3339, in UTC. A table that is read is taken as it is, without the checks of `Table.make`.

Model of the serialised forms of `PartitionField`, `PartitionValue`, `PartitionFieldSpec`,
`Checkpoint`, `ColumnStat`, `DataFile`, `InternalTable`, `TableSnapshot` and `TableChange`.
-/

namespace Lakehouse

/-- A kind of fault as JSON. -/
def Fault.Kind.ofJson? (c : Cursor) : Option Fault.Kind := c.named? ofName?

namespace PartitionField

/-- The members of a partition column, in order. -/
def memberNames : List String := ["source_field", "transform"]

/-- A partition column as JSON. -/
def toJson (p : PartitionField) : Json :=
  .record [("source_field", .text p.source), ("transform", .text p.transform.name)]

/-- Reads a partition column. -/
def ofJson? (c : Cursor) : Option PartitionField := do
  match ← Document.fields? memberNames 2 c with
  | [source, transform] =>
    return {
      source := ← Document.required Cursor.text? source
      transform := ← Document.required (Cursor.named? Transform.ofName?) transform }
  | _ => none

end PartitionField

namespace PartitionValue

/-- A partition value as JSON. -/
def toJson (p : PartitionValue) : Json :=
  .record [("field", p.field.toJson), ("value", p.value.toJson)]

/-- Reads a partition value. -/
def ofJson? (c : Cursor) : Option PartitionValue := do
  match ← Document.fields? ["field", "value"] 2 c with
  | [field, value] =>
    return {
      field := ← Document.required PartitionField.ofJson? field
      value := ← Document.required Value.ofJson? value }
  | _ => none

end PartitionValue

namespace PartitionSpec

/-- An entry of a partition spec as JSON. -/
def toJson (s : PartitionSpec) : Json :=
  .record [("source_field", .text s.source), ("transform", .text s.transform.name),
    ("format", .optional .text s.format)]

/-- Reads an entry of a partition spec. -/
def ofJson? (c : Cursor) : Option PartitionSpec := do
  match ← Document.fields? ["source_field", "transform", "format"] 3 c with
  | [source, transform, format] =>
    return {
      source := ← Document.required Cursor.text? source
      transform := ← Document.required (Cursor.named? Transform.ofName?) transform
      format := ← Document.optional Cursor.text? format }
  | _ => none

end PartitionSpec

namespace Checkpoint

/-- A checkpoint as JSON. -/
def toJson (c : Checkpoint) : Json :=
  .record [("commit_id", .text c.commit), ("commit_time", .text (c.time.rfc3339 "Z"))]

/-- Reads a checkpoint. -/
def ofJson? (c : Cursor) : Option Checkpoint := do
  match ← Document.fields? ["commit_id", "commit_time"] 2 c with
  | [commit, time] =>
    return {
      commit := ← Document.required Cursor.text? commit
      time := ← Rfc3339.read (← Document.required Cursor.text? time) }
  | _ => none

end Checkpoint

namespace ColumnStat

/-- The members of a statistic, in order. -/
def memberNames : List String := ["field_path", "min", "max", "null_count", "value_count"]

/-- A statistic as JSON. -/
def toJson (s : ColumnStat) : Json :=
  .record [("field_path", .text s.path), ("min", s.min.toJson), ("max", s.max.toJson),
    ("null_count", .integer s.nullCount.toNat), ("value_count", .integer s.valueCount.toNat)]

/-- Reads a statistic. -/
def ofJson? (c : Cursor) : Option ColumnStat := do
  match ← Document.fields? memberNames 5 c with
  | [path, min, max, nullCount, valueCount] =>
    return {
      path := ← Document.required Cursor.text? path
      min := ← Document.required Value.ofJson? min
      max := ← Document.required Value.ofJson? max
      nullCount := ← Document.required Cursor.uint64? nullCount
      valueCount := ← Document.required Cursor.uint64? valueCount }
  | _ => none

end ColumnStat

namespace DataFile

/-- The members of a data file, in order. -/
def memberNames : List String :=
  ["path", "file_format", "partition_values", "record_count", "file_size_bytes",
    "last_modified_millis", "column_stats"]

/-- A data file as JSON. -/
def toJson (f : DataFile) : Json :=
  .record [("path", .text f.path), ("file_format", .text f.format.name),
    ("partition_values", .list PartitionValue.toJson f.partitionValues),
    ("record_count", .integer f.recordCount.toNat), ("file_size_bytes", .integer f.sizeBytes.toNat),
    ("last_modified_millis", .integer f.lastModified.toInt),
    ("column_stats", .list ColumnStat.toJson f.columnStats)]

/-- Reads a data file. -/
def ofJson? (c : Cursor) : Option DataFile := do
  match ← Document.fields? memberNames 7 c with
  | [path, format, partitionValues, recordCount, sizeBytes, lastModified, columnStats] =>
    return {
      path := ← Document.required Cursor.text? path
      format := ← Document.required (Cursor.named? FileFormat.ofName?) format
      partitionValues := ←
        Document.required (Document.list? PartitionValue.ofJson?) partitionValues
      recordCount := ← Document.required Cursor.uint64? recordCount
      sizeBytes := ← Document.required Cursor.uint64? sizeBytes
      lastModified := ← Document.required Cursor.int64? lastModified
      columnStats := ← Document.required (Document.list? ColumnStat.ofJson?) columnStats }
  | _ => none

end DataFile

namespace Table

/-- The members of a table, in order. -/
def memberNames : List String :=
  ["name", "base_path", "data_path", "source_format", "schema", "partition_fields", "latest_commit"]

/-- A table as JSON. -/
def toJson (t : Table) : Json :=
  .record [("name", .text t.name), ("base_path", .text t.basePath),
    ("data_path", .optional .text t.dataPath), ("source_format", .text t.sourceFormat),
    ("schema", t.schema.toJson),
    ("partition_fields", .list PartitionField.toJson t.partitionFields),
    ("latest_commit", t.latestCommit.toJson)]

/-- Reads a table. -/
def ofJson? (c : Cursor) : Option Table := do
  match ← Document.fields? memberNames 7 c with
  | [name, basePath, dataPath, sourceFormat, schema, partitionFields, latestCommit] =>
    return {
      name := ← Document.required Cursor.text? name
      basePath := ← Document.required Cursor.text? basePath
      dataPath := ← Document.optional Cursor.text? dataPath
      sourceFormat := ← Document.required Cursor.text? sourceFormat
      schema := ← Document.required Schema.ofJson? schema
      partitionFields := ←
        Document.required (Document.list? PartitionField.ofJson?) partitionFields
      latestCommit := ← Document.required Checkpoint.ofJson? latestCommit }
  | _ => none

end Table

namespace Snapshot

/-- A snapshot as JSON. -/
def toJson (s : Snapshot) : Json :=
  .record [("table", s.table.toJson), ("files", .list DataFile.toJson s.files)]

/-- Reads a snapshot. -/
def ofJson? (c : Cursor) : Option Snapshot := do
  match ← Document.fields? ["table", "files"] 2 c with
  | [table, files] =>
    return {
      table := ← Document.required Table.ofJson? table
      files := ← Document.required (Document.list? DataFile.ofJson?) files }
  | _ => none

end Snapshot

namespace Change

/-- A change as JSON. -/
def toJson (s : Change) : Json :=
  .record [("table", s.table.toJson), ("files_added", .list DataFile.toJson s.added),
    ("files_removed", .list .text s.removed)]

/-- Reads a change. -/
def ofJson? (c : Cursor) : Option Change := do
  match ← Document.fields? ["table", "files_added", "files_removed"] 3 c with
  | [table, added, removed] =>
    return {
      table := ← Document.required Table.ofJson? table
      added := ← Document.required (Document.list? DataFile.ofJson?) added
      removed := ← Document.required (Document.list? Cursor.text?) removed }
  | _ => none

end Change

end Lakehouse
