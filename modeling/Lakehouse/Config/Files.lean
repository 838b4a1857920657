import Lakehouse.Config.Dataset
import Lakehouse.Config.Providers

/-!
# Configuration files

The files of a run hold documents. How a text is read as a document is not part of this library: a
`DocumentReader` is whatever does it. What is in a file system is a function from paths to texts, so
loading is a matter of looking up and reading.

* `DocumentReader` — what reads the three documents of a run.
* `DocumentReader.ReadsDefaults` — what the program relies on: the document that comes with it is
  read as the default providers.
* `Dataset.parse`, `Dataset.load` — the tables of a run; a dataset without a source format is
  refused.
* `ProviderConfig.parse`, `ProviderConfig.load` — the default providers, with a document laid over
  them.
* `Catalog.parse`, `Catalog.load` — the catalog, if a path is given.

Model of `from_yaml`, `defaults`, `with_overrides`, `load` and `read_config`. The deserialiser they
call is the parameter; a file system answers with a text or with the reason why there is none.
-/

namespace Lakehouse

/-- What reads documents: a text is the record of a type, or it is refused for a reason. -/
structure DocumentReader where
  dataset : String → Except String Dataset
  providers : String → Except String ProviderConfig
  catalog : String → Except String Catalog

/-- The document of the default providers, which comes with the program. -/
def ProviderConfig.defaultText : String :=
  "tableFormatConverters:\n" ++
  "  HUDI:\n" ++
  "    conversionSourceProviderClass: lakesync.hudi.source\n" ++
  "    conversionTargetProviderClass: lakesync.hudi.target\n" ++
  "  DELTA:\n" ++
  "    conversionSourceProviderClass: lakesync.delta.source\n" ++
  "    conversionTargetProviderClass: lakesync.delta.target\n" ++
  "  ICEBERG:\n" ++
  "    conversionSourceProviderClass: lakesync.iceberg.source\n" ++
  "    conversionTargetProviderClass: lakesync.iceberg.target\n"

/-- The document that comes with the program is read as the default providers. -/
def DocumentReader.ReadsDefaults (reader : DocumentReader) : Prop :=
  reader.providers ProviderConfig.defaultText = .ok .default

/-- The files that can be read: the text of each path, or why it cannot be read. -/
abbrev FileSystem := String → Except String String

/-- A text that is no document. -/
def malformed (reason : String) : Fault := ⟨.invalidConfiguration, reason⟩

/-- The text of a file. -/
def FileSystem.read (files : FileSystem) (path : String) : Except Fault String :=
  (files path).mapError fun reason => ⟨.invalidConfiguration, s!"cannot read {path}: {reason}"⟩

/-- The members of a catalog, in order. -/
def Catalog.memberNames : List String := ["catalogImpl", "catalogName", "catalogOptions"]

/-- Reads a catalog. -/
def Catalog.read {δ : Type} [Document δ] (d : δ) : Option Catalog := do
  match ← Document.fields? memberNames 2 d with
  | [provider, name, options] =>
    return {
      provider := ← Document.required Document.text? provider
      name := ← Document.required Document.text? name
      options := ← Document.orElse .empty (Document.dictionary? Document.text?) options }
  | _ => none

/-! ## Loading -/

variable (reader : DocumentReader)

/-- The dataset that a document holds. -/
def Dataset.parse (text : String) : Except Fault Dataset := do
  let d ← (reader.dataset text).mapError malformed
  if Text.isAllBlank d.sourceFormat then
    .error ⟨.invalidConfiguration, "dataset config has no sourceFormat"⟩
  else return d

/-- The dataset that a file holds. -/
def Dataset.load (files : FileSystem) (path : String) : Except Fault Dataset := do
  parse reader (← files.read path)

/-- The default providers, with a document laid over them. -/
def ProviderConfig.parse (overrides : Option String) : Except Fault ProviderConfig := do
  let c ← (reader.providers defaultText).mapError malformed
  match overrides with
  | none => return c
  | some text => return c.merge (← (reader.providers text).mapError malformed)

/-- The default providers, with a file laid over them. -/
def ProviderConfig.load (files : FileSystem) (path : Option String) :
    Except Fault ProviderConfig := do
  parse reader (← path.mapM files.read)

/-- The catalog that a document holds. -/
def Catalog.parse (text : String) : Except Fault Catalog :=
  (reader.catalog text).mapError malformed

/-- The catalog that a file holds, if a path is given. -/
def Catalog.load (files : FileSystem) (path : Option String) : Except Fault (Option Catalog) :=
  path.mapM fun path => do parse reader (← files.read path)

end Lakehouse
