import Lakehouse.Format.PartitionValue
import Lakehouse.Partition.Spec
import Lakehouse.Schema.Basic

/-!
# Partition paths

Hudi lays the files of a table out by partition: the relative path of a file holds one text for each
partition column, between slashes. In the other style each text carries the name of its column and
an equals sign in front. An absent value is written as a marker.

* `PartitionPath.render` — the path of a list of values.
* `PartitionPath.parse` — the values of a path. A date pattern with slashes spans several segments
  of the path; the name of a column is dropped where it is found.

Model of `partition_path` and `parse_partition_path`, with `column_type`.
-/

namespace Lakehouse.PartitionPath

/-- What stands in a path for an absent value. -/
def absent : String := "__HIVE_DEFAULT_PARTITION__"

/-- Why values have no path, or a path no values. -/
inductive Problem where
  | valueCount (values fields : Nat)
  | tooFewSegments (path : String) (fields : Nat)
  | tooManySegments (path : String) (segments consumed : Nat)
  deriving DecidableEq

/-- The words for a problem. -/
def Problem.message : Problem → String
  | valueCount values fields => s!"{values} partition values for {fields} partition fields"
  | tooFewSegments path fields =>
    s!"partition path '{path}' has too few segments for {fields} partition fields"
  | tooManySegments path segments consumed =>
    s!"partition path '{path}' has {segments} segments, partition fields consume {consumed}"

/-- A problem of a path is an invalid partition value. -/
def Problem.fault (p : Problem) : Fault := ⟨.invalidPartitionValue, p.message⟩

/-- The type of the column that an entry of a partition spec names. -/
def columnType (spec : PartitionSpec) (schema : Schema) : Except Fault DataType :=
  match schema.find? spec.source with
  | some field => .ok field.schema.type
  | none => .error ⟨.invalidPartitionSpec,
      s!"partition field '{spec.source}' does not exist in the schema"⟩

/-! ## Writing -/

/-- The name of a column as it stands in front of its text. -/
def label (spec : PartitionSpec) : String := spec.source ++ "="

/-- The text of one value in a path. -/
def renderValue (schema : Schema) (labelled : Bool) (spec : PartitionSpec) (v : Value) :
    Except Fault String := do
  let type ← columnType spec schema
  let native ← TableFormat.hudi.partitionToNative v type spec.transform spec.pattern
  let text := native.getD absent
  return if labelled then label spec ++ text else text

/-- The path of a list of values, in the order of the specs. -/
def render (values : List Value) (specs : List PartitionSpec) (schema : Schema)
    (labelled : Bool) : Except Fault String :=
  if values.length ≠ specs.length then
    .error (Problem.valueCount values.length specs.length).fault
  else do
    let texts ← (specs.zip values).mapM fun (spec, v) => renderValue schema labelled spec v
    return String.intercalate "/" texts

/-! ## Reading -/

/-- A path without the slashes at its two ends. -/
def strip (path : List Char) : List Char :=
  ((path.dropWhile (· == '/')).reverse.dropWhile (· == '/')).reverse

/-- The segments of a path. -/
def segments (path : String) : List (List Char) :=
  match strip path.toList with
  | [] => []
  | cs => cs.splitOn '/'

/-- The number of segments that the text of a column takes. -/
def width (spec : PartitionSpec) : Nat := spec.pattern.toList.count '/' + 1

/-- Reads the text of one column. -/
def parseValue (path : String) (spec : PartitionSpec) (type : DataType) (text : List Char) :
    Except Fault PartitionValue :=
  let text := String.ofList ((Text.stripStart? (label spec).toList text).getD text)
  let native := if text = absent then none else some text
  match TableFormat.hudi.partitionFromNative native type spec.transform spec.pattern with
  | .ok value => .ok ⟨spec.field, value⟩
  | .error f => .error (f.within s!"partition path '{path}'")

/-- Reads the texts of columns one after the other; gives the values and the segments left over. -/
def parseValues (path : String) (fields : Nat) (schema : Schema) (parts : List (List Char)) :
    List PartitionSpec → Except Fault (List PartitionValue × List (List Char))
  | [] => .ok ([], parts)
  | spec :: rest => do
    let type ← columnType spec schema
    if parts.length < width spec then .error (Problem.tooFewSegments path fields).fault
    else
      let text := List.intercalate ['/'] (parts.take (width spec))
      let value ← parseValue path spec type text
      let (values, left) ← parseValues path fields schema (parts.drop (width spec)) rest
      return (value :: values, left)

/-- The values of a path, one for each spec. -/
def parse (path : String) (specs : List PartitionSpec) (schema : Schema) :
    Except Fault (List PartitionValue) := do
  let parts := segments path
  let (values, left) ← parseValues path specs.length schema parts specs
  if left = [] then return values
  else .error (Problem.tooManySegments path parts.length (parts.length - left.length)).fault

end Lakehouse.PartitionPath
