import Lakehouse.Fault
import Lakehouse.Text.Blank
import Lakehouse.Text.Letters

/-!
# Modes of synchronisation

A target is either rebuilt from the whole state of the source, or brought up to date by the changes
since its last position.

Model of `SyncMode`.
-/

namespace Lakehouse

/-- How a target is synchronised. -/
inductive SyncMode where
  | full
  | incremental
  deriving DecidableEq, Repr

namespace SyncMode

/-- Every mode. -/
def all : List SyncMode := [.full, .incremental]

/-- The name of a mode. -/
def name : SyncMode → String
  | full => "FULL"
  | incremental => "INCREMENTAL"

/-- The mode of that name. -/
def ofName? (name : String) : Option SyncMode := all.find? fun m => m.name = name

/-- Reads a name in any case, with blanks around it. -/
def parse (text : String) : Except Fault SyncMode :=
  match ofName? (Text.upper (Text.trim text)) with
  | some m => .ok m
  | none => .error ⟨.invalidConfiguration,
      s!"unknown sync mode '{text}', expected FULL or INCREMENTAL"⟩

theorem ofName?_name (m : SyncMode) : ofName? m.name = some m := by cases m <;> rfl

end SyncMode

end Lakehouse
