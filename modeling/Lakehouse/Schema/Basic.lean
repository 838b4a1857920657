import Lakehouse.Schema.DataType
import Lakehouse.Schema.Metadata
import Lakehouse.Text.Cut

/-!
# Schemas

A schema describes one node of a table's type: the table itself is a record whose fields are its
columns, and the fields of a column are its parts.

* `Schema.find?` — the field a dotted path leads to.
* `Schema.leafPaths` — the paths of all columns that are not records, in order of declaration.
* `Schema.build` — assembles one node over nodes already built. It refuses a decimal without a
  sensible precision and scale, a timestamp whose precision is no unit of time, a fixed-size column
  without its size, and a record that uses a name twice; a timestamp without a precision counts
  milliseconds.

Model of `Schema` and `Field`, with `find_field`, `leaf_paths` and `build`.
-/

namespace Lakehouse

mutual

/-- One node of a table's type. -/
structure Schema where
  name : String
  type : DataType
  comment : Option String
  nullable : Bool
  fields : List Field
  metadata : Metadata

/-- A named part of a structural node. -/
structure Field where
  name : String
  /-- The column number that a format has assigned, if it is known. -/
  id : Option Int32
  schema : Schema

end

/-! ## Equality -/

mutual

/-- Whether two schemas are equal. -/
def Schema.decEq (a b : Schema) : Decidable (a = b) :=
  match a, b with
  | ⟨n, t, c, u, fs, m⟩, ⟨n', t', c', u', fs', m'⟩ =>
    match Field.decEqList fs fs' with
    | isTrue hf =>
      if h : n = n' ∧ t = t' ∧ c = c' ∧ u = u' ∧ m = m' then
        isTrue (by obtain ⟨rfl, rfl, rfl, rfl, rfl⟩ := h; subst hf; rfl)
      else isFalse (by intro e; injection e; simp_all)
    | isFalse hf => isFalse (by intro e; injection e; contradiction)

/-- Whether two fields are equal. -/
def Field.decEq (a b : Field) : Decidable (a = b) :=
  match a, b with
  | ⟨n, i, s⟩, ⟨n', i', s'⟩ =>
    match Schema.decEq s s' with
    | isTrue hs =>
      if h : n = n' ∧ i = i' then isTrue (by obtain ⟨rfl, rfl⟩ := h; subst hs; rfl)
      else isFalse (by intro e; injection e; simp_all)
    | isFalse hs => isFalse (by intro e; injection e; contradiction)

/-- Whether two lists of fields are equal. -/
def Field.decEqList (a b : List Field) : Decidable (a = b) :=
  match a, b with
  | [], [] => isTrue rfl
  | [], _ :: _ => isFalse nofun
  | _ :: _, [] => isFalse nofun
  | f :: fs, g :: gs =>
    match Field.decEq f g, Field.decEqList fs gs with
    | isTrue h, isTrue h' => isTrue (by subst h; subst h'; rfl)
    | isFalse h, _ => isFalse (by intro e; injection e; contradiction)
    | _, isFalse h => isFalse (by intro e; injection e; contradiction)

end

instance : DecidableEq Schema := Schema.decEq
instance : DecidableEq Field := Field.decEq

namespace Schema

/-! ## Metadata -/

/-- The unit of a timestamp column. -/
def timestampPrecision? (s : Schema) : Option Precision :=
  match s.metadata.timestampPrecision with
  | some (.precision p) => some p
  | _ => none

/-- The declared unit of an instant column; milliseconds where none is declared. -/
def precision (s : Schema) : Precision := s.timestampPrecision?.getD .millis

/-- The places of a decimal column. -/
def decimalScale? (s : Schema) : Option UInt32 := s.metadata.number? .decimalScale

/-- The digits of a decimal column. -/
def decimalPrecision? (s : Schema) : Option UInt32 := s.metadata.number? .decimalPrecision

/-- The bytes of a fixed-size column. -/
def fixedSize? (s : Schema) : Option UInt32 := s.metadata.number? .fixedBytesSize

/-! ## Paths -/

/-- The names on a dotted path. -/
def segments (path : String) : List String := Text.pieces '.' path

/-- The field that names lead to, each found among the fields of the one before. -/
def findIn (fields : List Field) : List String → Option Field
  | [] => none
  | [name] => fields.find? (·.name == name)
  | name :: rest => (fields.find? (·.name == name)).bind fun f => findIn f.schema.fields rest

/-- The field that a dotted path leads to. -/
def find? (s : Schema) (path : String) : Option Field := findIn s.fields (segments path)

/-- A path with one more name. -/
def extend (path name : String) : String := if path = "" then name else path ++ "." ++ name

/-- The paths of the fields that are not records, below the path `above`. -/
def leafPathsIn (above : String) : List Field → List String
  | [] => []
  | ⟨name, _, ⟨_, type, _, _, fields, _⟩⟩ :: rest =>
    (if type = .record then leafPathsIn (extend above name) fields else [extend above name])
      ++ leafPathsIn above rest

/-- The paths of all columns that are not records, in order of declaration. -/
def leafPaths (s : Schema) : List String := leafPathsIn "" s.fields

/-! ## Building -/

/-- Why a node cannot be built. -/
inductive Problem where
  | zeroPrecision (name : String)
  | scaleAbovePrecision (name : String) (scale precision : UInt32)
  | noPrecision (name : String) (entry : Metadata.Entry)
  | noNumber (type : DataType) (name : String) (key : Metadata.Key) (entry : Metadata.Entry)
  | missingNumber (type : DataType) (name : String) (key : Metadata.Key)
  | repeatedField (name field : String)
  deriving DecidableEq

/-- The words for a problem. -/
def Problem.message : Problem → String
  | zeroPrecision name => s!"decimal field '{name}' has zero precision"
  | scaleAbovePrecision name scale precision =>
    s!"decimal field '{name}' has scale {scale.toNat} greater than precision {precision.toNat}"
  | noPrecision name entry => s!"timestamp field '{name}' has invalid precision {entry.label}"
  | noNumber type name key entry =>
    s!"{type.name} field '{name}' has invalid {key.label} {entry.label}"
  | missingNumber type name key => s!"{type.name} field '{name}' is missing {key.label}"
  | repeatedField name field => s!"record '{name}' declares field '{field}' more than once"

/-- A problem of a schema is an invalid schema. -/
def Problem.fault (p : Problem) : Fault := ⟨.invalidSchema, p.message⟩

/-- The number that the entry for a key must hold. -/
def requireNumber (s : Schema) (key : Metadata.Key) : Except Problem UInt32 :=
  match s.metadata.get? key with
  | some (.number n) => .ok n
  | some entry => .error (.noNumber s.type s.name key entry)
  | none => .error (.missingNumber s.type s.name key)

/-- Checks the precision and scale of a decimal node. -/
def checkDecimal (s : Schema) : Except Problem Unit := do
  let precision ← s.requireNumber .decimalPrecision
  let scale ← s.requireNumber .decimalScale
  if precision = 0 then .error (.zeroPrecision s.name)
  else if precision < scale then .error (.scaleAbovePrecision s.name scale precision)
  else .ok ()

/-- Checks the precision of a timestamp node and fills it in. -/
def completeTimestamp (s : Schema) : Except Problem Schema :=
  match s.metadata.timestampPrecision with
  | none => .ok { s with metadata := s.metadata.set .timestampPrecision (.precision .millis) }
  | some (.precision _) => .ok s
  | some entry => .error (.noPrecision s.name entry)

/-- Checks what the type of a node demands of its metadata, and completes it. -/
def complete (s : Schema) : Except Problem Schema :=
  match s.type with
  | .decimal => do s.checkDecimal; return s
  | .timestamp | .timestampNtz => s.completeTimestamp
  | .fixed => do let _ ← s.requireNumber .fixedBytesSize; return s
  | _ => .ok s

/-- The first name that stands a second time in a list. -/
def repeated? (seen : List String) : List String → Option String
  | [] => none
  | name :: rest => if name ∈ seen then some name else repeated? (name :: seen) rest

/-- Checks that the fields of a record have names of their own. -/
def checkNames (s : Schema) : Except Problem Unit :=
  match s.type, repeated? [] (s.fields.map (·.name)) with
  | .record, some field => .error (.repeatedField s.name field)
  | _, _ => .ok ()

/-- Assembles a node over fields that are already built. -/
def assemble (s : Schema) : Except Problem Schema := do
  let s ← s.complete
  s.checkNames
  return s

/-- Assembles a node over fields that are already built. -/
def build (s : Schema) : Except Fault Schema := s.assemble.mapError Problem.fault

end Schema

end Lakehouse
