import Lakehouse.Dictionary
import Lakehouse.Sync.Mode

/-!
# Requests

A request asks for one table to be synchronised: where its source is, which targets it has, and in
which mode. A request has at least one target.

Model of `CatalogConfig`, `TableDescriptor` and `ConversionConfig`.
-/

namespace Lakehouse

/-- A catalog that tables are registered in. -/
structure Catalog where
  /-- The identifier of the catalog's provider. -/
  provider : String
  name : String
  options : Dictionary String
  deriving DecidableEq

/-- One side of a conversion: a table, where it is, and its format. -/
structure TableDescriptor where
  name : String
  basePath : String
  /-- Where the data files are, if not under the base path. -/
  dataPath : Option String
  nameSpace : List String
  format : String
  catalog : Option Catalog
  properties : Dictionary String
  deriving DecidableEq

namespace TableDescriptor

/-- A descriptor with nothing but what it must have. -/
def plain (name basePath format : String) : TableDescriptor :=
  ⟨name, basePath, none, [], format, none, .empty⟩

/-- The name of the table behind its name space. -/
def qualifiedName (t : TableDescriptor) : String :=
  if t.nameSpace = [] then t.name else String.intercalate "." t.nameSpace ++ "." ++ t.name

end TableDescriptor

/-- A table to be synchronised. -/
structure SyncRequest where
  source : TableDescriptor
  targets : List TableDescriptor
  mode : SyncMode
  deriving DecidableEq

/-- The request, if it has a target. -/
def SyncRequest.make (source : TableDescriptor) (targets : List TableDescriptor)
    (mode : SyncMode) : Except Fault SyncRequest :=
  if targets = [] then .error ⟨.invalidConfiguration,
    s!"table '{source.name}' at {source.basePath} has no target formats"⟩
  else .ok ⟨source, targets, mode⟩

end Lakehouse
