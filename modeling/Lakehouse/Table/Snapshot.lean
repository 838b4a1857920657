import Lakehouse.Table.Basic
import Lakehouse.Table.ColumnStat

/-!
# Snapshots and changes

The state of a table is its data files. A snapshot holds all of them, a change those that one commit
added and the paths of those it removed. Data files themselves are never written: a synchronisation
converts what is known about them.

Model of `FileFormat`, `DataFile`, `TableSnapshot` and `TableChange`.
-/

namespace Lakehouse

/-- The physical format of a data file. -/
inductive FileFormat where
  | parquet
  | orc
  | avro
  deriving DecidableEq, Repr

namespace FileFormat

/-- Every file format. -/
def all : List FileFormat := [.parquet, .orc, .avro]

/-- The name of a file format. -/
def name : FileFormat → String
  | parquet => "PARQUET"
  | orc => "ORC"
  | avro => "AVRO"

/-- The file format of that name. -/
def ofName? (name : String) : Option FileFormat := all.find? fun f => f.name = name

theorem ofName?_name (f : FileFormat) : ofName? f.name = some f := by cases f <;> rfl

end FileFormat

/-- A data file of a table. -/
structure DataFile where
  path : String
  format : FileFormat
  partitionValues : List PartitionValue
  recordCount : UInt64
  sizeBytes : UInt64
  lastModified : Int64
  columnStats : List ColumnStat
  deriving DecidableEq

/-- The whole state of a table. -/
structure Snapshot where
  table : Table
  files : List DataFile
  deriving DecidableEq

/-- What one commit did to a table. The description of the table is that after the commit. -/
structure Change where
  table : Table
  added : List DataFile
  /-- The paths of the data files that were removed. -/
  removed : List String
  deriving DecidableEq

/-- The position that a snapshot reflects. -/
def Snapshot.checkpoint (s : Snapshot) : Checkpoint := s.table.latestCommit

/-- The number of records in all files. -/
def Snapshot.totalRecords (s : Snapshot) : UInt64 :=
  (s.files.map DataFile.recordCount).foldl (· + ·) 0

/-- The position of the commit. -/
def Change.checkpoint (c : Change) : Checkpoint := c.table.latestCommit

end Lakehouse
