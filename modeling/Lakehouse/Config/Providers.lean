import Lakehouse.Codec.Document
import Lakehouse.Fault
import Lakehouse.Text.Letters
import Lakehouse.Text.Quoted

/-!
# Which provider serves a format

For each format a provider configuration names the provider that opens sources and the one that
opens targets, and holds settings for them. The names of formats are told apart without regard to
case. A configuration may be laid over another one, format by format and setting by setting.

* `ProviderConfig.merge` — the overlay.
* `ProviderConfig.entry` — what is configured for a format.
* `ProviderConfig.default` — the providers of the known formats.

Model of `ConvertersConfig` and `ConverterEntry`, with `merge`, `entry` and `known_formats`. Their
documents are loaded in `Config.Files`.
-/

namespace Lakehouse

/-- What is configured for one format. -/
structure ProviderEntry where
  /-- The identifier of the provider that opens sources. -/
  source : Option String
  /-- The identifier of the provider that opens targets. -/
  target : Option String
  settings : Dictionary String
  deriving DecidableEq

namespace ProviderEntry

/-- Nothing is configured. -/
def empty : ProviderEntry := ⟨none, none, .empty⟩

/-- An entry laid over another: its providers count where it has any, its settings one by one. -/
def merge (e other : ProviderEntry) : ProviderEntry :=
  ⟨other.source <|> e.source, other.target <|> e.target, e.settings.overlay other.settings⟩

/-- The members of an entry, in order. -/
def memberNames : List String :=
  ["conversionSourceProviderClass", "conversionTargetProviderClass", "configuration"]

/-- Reads an entry. -/
def read {δ : Type} [Document δ] (d : δ) : Option ProviderEntry := do
  match ← Document.fields? memberNames 0 d with
  | [source, target, settings] =>
    return {
      source := ← Document.optional Document.text? source
      target := ← Document.optional Document.text? target
      settings := ← Document.orElse .empty (Document.dictionary? Document.text?) settings }
  | _ => none

end ProviderEntry

/-- What is configured for all formats, by the names of the formats. -/
structure ProviderConfig where
  formats : Dictionary ProviderEntry
  deriving DecidableEq

namespace ProviderConfig

/-- The name under which a format is configured: a known name that differs at most in case, else the
name itself. -/
def nameFor (c : ProviderConfig) (format : String) : String :=
  ((c.formats.find? fun known => Text.sameLetters known format).map (·.1)).getD format

/-- Lays an entry over what is configured for a format. -/
def mergeEntry (c : ProviderConfig) (format : String) (e : ProviderEntry) : ProviderConfig :=
  ⟨c.formats.alter (c.nameFor format) fun old => (old.getD .empty).merge e⟩

/-- Lays a configuration over another, in the order of its names. -/
def merge (c other : ProviderConfig) : ProviderConfig :=
  other.formats.entries.foldl (fun c (format, e) => c.mergeEntry format e) c

/-- A format that is not configured. -/
def unknown (c : ProviderConfig) (format : String) : Fault :=
  let known := Text.quoteList c.formats.names
  ⟨.invalidConfiguration,
    s!"format {format} is not supported. Known source and target formats are {known}"⟩

/-- What is configured for a format. -/
def entry (c : ProviderConfig) (format : String) : Except Fault ProviderEntry :=
  match c.formats.find? fun known => Text.sameLetters known format with
  | some (_, e) => .ok e
  | none => .error (c.unknown format)

/-- The providers of a format that comes with the program. -/
def builtIn (format : String) : ProviderEntry :=
  ⟨some s!"lakesync.{format}.source", some s!"lakesync.{format}.target", .empty⟩

/-- The providers of the known formats. -/
def default : ProviderConfig :=
  ⟨.ofList [("HUDI", builtIn "hudi"), ("DELTA", builtIn "delta"), ("ICEBERG", builtIn "iceberg")]⟩

/-- Reads a configuration. -/
def read {δ : Type} [Document δ] (d : δ) : Option ProviderConfig := do
  match ← Document.fields? ["tableFormatConverters"] 0 d with
  | [formats] =>
    return ⟨← Document.orElse .empty (Document.dictionary? ProviderEntry.read) formats⟩
  | _ => none

end ProviderConfig

end Lakehouse
