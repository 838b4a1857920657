import Lakehouse.Codec.Document
import Lakehouse.Partition.Spec
import Lakehouse.Sync.Request

/-!
# Datasets

A dataset lists the tables that one run synchronises, all of one source format, each into the same
target formats. Every table becomes a request.

* `Dataset.request` — the request of one table. The partition spec of a table has to be well formed;
  it is kept among the properties of the source. Targets share the base path of the source, but not
  its data path.
* `Dataset.requests` — the requests of all tables.

Model of `DatasetConfig`, `DatasetTable`, `build_conversion_config` and `build_conversion_configs`.
-/

namespace Lakehouse

/-- A table of a dataset. -/
structure DatasetTable where
  basePath : String
  dataPath : Option String
  name : String
  /-- The partition spec, as text. -/
  partitionSpec : Option String
  /-- The name space, with points between its parts. -/
  nameSpace : Option String
  deriving DecidableEq

/-- The tables of one run, and the formats they are converted between. -/
structure Dataset where
  sourceFormat : String
  targetFormats : List String
  tables : List DatasetTable
  deriving DecidableEq

namespace DatasetTable

/-- The members of a table, in order. -/
def memberNames : List String :=
  ["tableBasePath", "tableDataPath", "tableName", "partitionSpec", "namespace"]

/-- Reads a table. -/
def read {δ : Type} [Document δ] (d : δ) : Option DatasetTable := do
  match ← Document.fields? memberNames 3 d with
  | [basePath, dataPath, name, partitionSpec, nameSpace] =>
    return {
      basePath := ← Document.required Document.text? basePath
      dataPath := ← Document.optional Document.text? dataPath
      name := ← Document.required Document.text? name
      partitionSpec := ← Document.optional Document.text? partitionSpec
      nameSpace := ← Document.optional Document.text? nameSpace }
  | _ => none

/-- The parts of the name space. -/
def nameParts (t : DatasetTable) : List String := (t.nameSpace.map (Text.pieces '.')).getD []

/-- The properties of the source: the partition spec, if the table has one. -/
def properties (t : DatasetTable) : Dictionary String :=
  .ofList (t.partitionSpec.toList.map fun spec => ("lakesync.partition-field-spec", spec))

/-- Checks that a table has a path and a name, and a well-formed partition spec. -/
def check (t : DatasetTable) : Except Fault Unit := do
  if Text.isAllBlank t.basePath || Text.isAllBlank t.name then
    .error ⟨.invalidConfiguration,
      s!"dataset entry needs tableBasePath and tableName, got '{t.basePath}' / '{t.name}'"⟩
  else
    match t.partitionSpec with
    | none => .ok ()
    | some spec => do
      let _ ← PartitionSpec.parseList spec
      return ()

end DatasetTable

namespace Dataset

/-- The members of a dataset, in order. -/
def memberNames : List String := ["sourceFormat", "targetFormats", "datasets"]

/-- Reads a dataset. -/
def read {δ : Type} [Document δ] (d : δ) : Option Dataset := do
  match ← Document.fields? memberNames 1 d with
  | [sourceFormat, targetFormats, tables] =>
    return {
      sourceFormat := ← Document.required Document.text? sourceFormat
      targetFormats := ← Document.orElse [] (Document.list? Document.text?) targetFormats
      tables := ← Document.orElse [] (Document.list? DatasetTable.read) tables }
  | _ => none

/-- The source of a table. -/
def source (d : Dataset) (catalog : Option Catalog) (t : DatasetTable) : TableDescriptor :=
  ⟨t.name, t.basePath, t.dataPath, t.nameParts, d.sourceFormat, catalog, t.properties⟩

/-- The target of a table in one format. -/
def target (catalog : Option Catalog) (t : DatasetTable) (format : String) : TableDescriptor :=
  ⟨t.name, t.basePath, none, t.nameParts, format, catalog, .empty⟩

/-- The request of one table. -/
def request (d : Dataset) (catalog : Option Catalog) (mode : SyncMode) (t : DatasetTable) :
    Except Fault SyncRequest := do
  t.check
  SyncRequest.make (d.source catalog t) (d.targetFormats.map (target catalog t)) mode

/-- The requests of all tables. -/
def requests (d : Dataset) (catalog : Option Catalog) (mode : SyncMode) :
    Except Fault (List SyncRequest) :=
  d.tables.mapM (d.request catalog mode)

end Dataset

end Lakehouse
