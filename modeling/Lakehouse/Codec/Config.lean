import Lakehouse.Codec.Cursor
import Lakehouse.Config.Files

/-!
# Configuration as JSON

Table descriptors, catalogs, datasets and provider configurations. All members are written, absent
ones as null; the members of a dictionary are written in the order of their names.

Model of the serialised forms of `TableDescriptor`, `CatalogConfig`, `DatasetConfig` and
`ConvertersConfig`. All but the first are read in the modules of the configuration.
-/

namespace Lakehouse

/-- A dictionary as JSON. -/
def Dictionary.toJson {α : Type} (encode : α → Json) (d : Dictionary α) : Json :=
  .record (d.entries.map fun (name, value) => (name, encode value))

/-- A catalog as JSON. -/
def Catalog.toJson (c : Catalog) : Json :=
  .record [("catalogImpl", .text c.provider), ("catalogName", .text c.name),
    ("catalogOptions", c.options.toJson .text)]

namespace TableDescriptor

/-- The members of a table descriptor, in order. -/
def memberNames : List String :=
  ["name", "base_path", "data_path", "namespace", "format_name", "catalog_config",
    "additional_properties"]

/-- A table descriptor as JSON. -/
def toJson (t : TableDescriptor) : Json :=
  .record [("name", .text t.name), ("base_path", .text t.basePath),
    ("data_path", .optional .text t.dataPath), ("namespace", .list .text t.nameSpace),
    ("format_name", .text t.format), ("catalog_config", .optional Catalog.toJson t.catalog),
    ("additional_properties", t.properties.toJson .text)]

/-- Reads a table descriptor. -/
def ofJson? (c : Cursor) : Option TableDescriptor := do
  match ← Document.fields? memberNames 7 c with
  | [name, basePath, dataPath, nameSpace, format, catalog, properties] =>
    return {
      name := ← Document.required Cursor.text? name
      basePath := ← Document.required Cursor.text? basePath
      dataPath := ← Document.optional Cursor.text? dataPath
      nameSpace := ← Document.required (Document.list? Cursor.text?) nameSpace
      format := ← Document.required Cursor.text? format
      catalog := ← Document.optional Catalog.read catalog
      properties := ← Document.required (Document.dictionary? Cursor.text?) properties }
  | _ => none

end TableDescriptor

/-- A table of a dataset as JSON. -/
def DatasetTable.toJson (t : DatasetTable) : Json :=
  .record [("tableBasePath", .text t.basePath), ("tableDataPath", .optional .text t.dataPath),
    ("tableName", .text t.name), ("partitionSpec", .optional .text t.partitionSpec),
    ("namespace", .optional .text t.nameSpace)]

/-- A dataset as JSON. -/
def Dataset.toJson (d : Dataset) : Json :=
  .record [("sourceFormat", .text d.sourceFormat), ("targetFormats", .list .text d.targetFormats),
    ("datasets", .list DatasetTable.toJson d.tables)]

/-- What is configured for one format, as JSON. -/
def ProviderEntry.toJson (e : ProviderEntry) : Json :=
  .record [("conversionSourceProviderClass", .optional .text e.source),
    ("conversionTargetProviderClass", .optional .text e.target),
    ("configuration", e.settings.toJson .text)]

/-- A provider configuration as JSON. -/
def ProviderConfig.toJson (c : ProviderConfig) : Json :=
  .record [("tableFormatConverters", c.formats.toJson ProviderEntry.toJson)]

end Lakehouse
