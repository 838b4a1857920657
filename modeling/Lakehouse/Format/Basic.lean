import Lakehouse.Fault
import Lakehouse.Text.Blank
import Lakehouse.Text.Letters
import Lakehouse.Text.Quoted

/-!
# Table formats

The table formats whose values, statistics and partitions can be converted.

Model of `TableFormat`, its names and `from_str`.
-/

namespace Lakehouse

/-- A table format. -/
inductive TableFormat where
  | hudi
  | delta
  | iceberg
  deriving DecidableEq, Repr

namespace TableFormat

/-- Every format. -/
def all : List TableFormat := [.hudi, .delta, .iceberg]

/-- The name of a format. -/
def name : TableFormat → String
  | hudi => "HUDI"
  | delta => "DELTA"
  | iceberg => "ICEBERG"

/-- The format of that name. -/
def ofName? (name : String) : Option TableFormat := all.find? fun f => f.name = name

/-- Reads a name in any case, with blanks around it. -/
def parse (text : String) : Except Fault TableFormat :=
  match all.find? fun f => Text.sameLetters f.name (Text.trim text) with
  | some f => .ok f
  | none => .error ⟨.invalidConfiguration,
      s!"unknown table format '{text}', known formats are {Text.quoteList (all.map name)}"⟩

theorem ofName?_name (f : TableFormat) : ofName? f.name = some f := by cases f <;> rfl

end TableFormat

end Lakehouse
