import Lakehouse.Config.Files
import Lakehouse.Yaml.Reader

/-!
# A reader of plain documents

`Yaml.reader` reads the documents of a run as long as they keep to plain notation. It is what the
library is run with, and an example of a `DocumentReader`. It is not the definition of one: a full
reader takes more texts, those with anchors and block scalars for instance, so whatever is said of
runs is said for every reader.
-/

namespace Lakehouse.Yaml

/-- A text as a record, if it is a plain document of one. -/
def ofText {α : Type} (read : Yaml → Option α) (text : String) : Except String α :=
  match (parse text).bind read with
  | some a => .ok a
  | none => .error "malformed document"

/-- The reader of plain documents. -/
def reader : DocumentReader where
  dataset := ofText Dataset.read
  providers := ofText ProviderConfig.read
  catalog := ofText Catalog.read

end Lakehouse.Yaml
