import Lakehouse.Schema.Basic

/-!
# Schemas by calls

A builder starts a node with its name and its type, and is told the rest by calls. Of two comments,
or of two entries for one key, the later counts; fields are added to those before them.

* `BuilderCall` — the calls.
* `Schema.ofCalls` — the node that some calls build, or what is wrong with it.

Model of the methods of `SchemaBuilder` before `build`.
-/

namespace Lakehouse

/-- A call on the builder of a node. -/
inductive BuilderCall where
  | comment (text : String)
  | nullable (nullable : Bool)
  | field (f : Field)
  | fields (fs : List Field)
  | metadata (key : Metadata.Key) (entry : Metadata.Entry)
  /-- The unit of a timestamp. -/
  | precision (p : Precision)
  /-- The digits and the places of a decimal. -/
  | decimal (precision scale : UInt32)

namespace Schema

/-- The draft of a node before any calls. -/
def blank (name : String) (type : DataType) : Schema := ⟨name, type, none, true, [], .empty⟩

/-- A draft with more fields. -/
def addFields (draft : Schema) (fs : List Field) : Schema :=
  { draft with fields := draft.fields ++ fs }

/-- A draft with a new entry for a key, in place of an old one. -/
def setEntry (draft : Schema) (key : Metadata.Key) (entry : Metadata.Entry) : Schema :=
  { draft with metadata := draft.metadata.set key entry }

/-- The draft after a call. -/
def after (draft : Schema) : BuilderCall → Schema
  | .comment text => { draft with comment := some text }
  | .nullable nullable => { draft with nullable }
  | .field f => draft.addFields [f]
  | .fields fs => draft.addFields fs
  | .metadata key entry => draft.setEntry key entry
  | .precision p => draft.setEntry .timestampPrecision (.precision p)
  | .decimal precision scale =>
    (draft.setEntry .decimalPrecision (.number precision)).setEntry .decimalScale (.number scale)

/-- The draft after some calls. -/
def draft (name : String) (type : DataType) (calls : List BuilderCall) : Schema :=
  calls.foldl after (blank name type)

/-- The node that some calls build. -/
def ofCalls (name : String) (type : DataType) (calls : List BuilderCall) : Except Fault Schema :=
  (draft name type calls).build

end Schema

end Lakehouse
