import Lakehouse.Arrow.Bridge
import Lakehouse.Arrow.DataType
import Lakehouse.Calendar.Date
import Lakehouse.Calendar.DatePattern
import Lakehouse.Calendar.DatePattern.Reader
import Lakehouse.Calendar.EpochDay
import Lakehouse.Calendar.Instant
import Lakehouse.Calendar.Precision
import Lakehouse.Calendar.Rfc3339
import Lakehouse.Codec.Config
import Lakehouse.Codec.Cursor
import Lakehouse.Codec.Document
import Lakehouse.Codec.Schema
import Lakehouse.Codec.Table
import Lakehouse.Codec.Value
import Lakehouse.CommandLine
import Lakehouse.Config.Dataset
import Lakehouse.Config.Files
import Lakehouse.Config.Providers
import Lakehouse.Decimal.Basic
import Lakehouse.Decimal.Exact
import Lakehouse.Decimal.Reader
import Lakehouse.Dictionary
import Lakehouse.Fault
import Lakehouse.Format.Basic
import Lakehouse.Format.Ordinal
import Lakehouse.Format.PartitionValue
import Lakehouse.Format.Pattern
import Lakehouse.Format.Statistic
import Lakehouse.Json.Number
import Lakehouse.Json.Reader
import Lakehouse.Json.Tree
import Lakehouse.Native.Coercion
import Lakehouse.Native.Decimal
import Lakehouse.Number.Binary
import Lakehouse.Number.Bounded
import Lakehouse.Number.Numeral
import Lakehouse.Number.Scientific
import Lakehouse.Number.Shortest
import Lakehouse.Partition.Bucket
import Lakehouse.Partition.Identity
import Lakehouse.Partition.Path
import Lakehouse.Partition.Spec
import Lakehouse.Partition.Transform
import Lakehouse.Proofs.Calendar.Date
import Lakehouse.Proofs.Calendar.DatePattern.Compile
import Lakehouse.Proofs.Calendar.DatePattern.Field
import Lakehouse.Proofs.Calendar.DatePattern.Literal
import Lakehouse.Proofs.Calendar.DatePattern.RoundTrip
import Lakehouse.Proofs.Calendar.Instant
import Lakehouse.Proofs.Canonical
import Lakehouse.Proofs.Decimal.Exact
import Lakehouse.Proofs.Decimal.Reader
import Lakehouse.Proofs.Decimal.Text
import Lakehouse.Proofs.Dictionary
import Lakehouse.Proofs.Except
import Lakehouse.Proofs.Format.Statistic
import Lakehouse.Proofs.Native.Decimal
import Lakehouse.Proofs.Number.Numeral
import Lakehouse.Proofs.Partition.Absent
import Lakehouse.Proofs.Partition.Bucket
import Lakehouse.Proofs.Partition.Identity
import Lakehouse.Proofs.Partition.Legible
import Lakehouse.Proofs.Partition.Path
import Lakehouse.Proofs.Partition.Strings
import Lakehouse.Proofs.Partition.Window
import Lakehouse.Proofs.Schema.Built
import Lakehouse.Proofs.Schema.Path
import Lakehouse.Proofs.Sync.AllOrNothing
import Lakehouse.Proofs.Sync.CheckpointStore
import Lakehouse.Proofs.Sync.Collaborators
import Lakehouse.Proofs.Sync.ExactlyOnce
import Lakehouse.Proofs.Sync.Isolation
import Lakehouse.Proofs.Sync.Preparation
import Lakehouse.Proofs.Sync.Reading
import Lakehouse.Proofs.Sync.Recording
import Lakehouse.Proofs.Sync.Run
import Lakehouse.Proofs.Sync.Schedule
import Lakehouse.Proofs.Sync.Settlement
import Lakehouse.Proofs.Sync.SharedRead
import Lakehouse.Proofs.Sync.TiedCommits
import Lakehouse.Proofs.Sync.TurningPoint
import Lakehouse.Proofs.Sync.Variation
import Lakehouse.Proofs.Sync.World
import Lakehouse.Proofs.Table.ColumnStat
import Lakehouse.Proofs.Table.History
import Lakehouse.Proofs.Text.Blank
import Lakehouse.Proofs.Text.Cut
import Lakehouse.Proofs.Text.Letters
import Lakehouse.Schema.Basic
import Lakehouse.Schema.DataType
import Lakehouse.Schema.Metadata
import Lakehouse.Sync.Batch
import Lakehouse.Sync.CheckpointStore
import Lakehouse.Sync.Launch
import Lakehouse.Sync.Mode
import Lakehouse.Sync.Outcome
import Lakehouse.Sync.Registry
import Lakehouse.Sync.Report
import Lakehouse.Sync.Request
import Lakehouse.Sync.Run
import Lakehouse.Sync.Schedule
import Lakehouse.Sync.Services
import Lakehouse.Sync.TableRun
import Lakehouse.Sync.TurningPoint
import Lakehouse.Table.Basic
import Lakehouse.Table.Checkpoint
import Lakehouse.Table.ColumnStat
import Lakehouse.Table.Snapshot
import Lakehouse.Text.Blank
import Lakehouse.Text.Cut
import Lakehouse.Text.Letters
import Lakehouse.Text.Quoted
import Lakehouse.Value
import Lakehouse.Yaml.Documents
import Lakehouse.Yaml.Reader
import Lakehouse.Yaml.Token
import Lakehouse.Proofs.Partition.Refusal
import Lakehouse.Proofs.Table.PartitionColumn
import Lakehouse.Proofs.Sync.Planning
import Lakehouse.Proofs.Sync.OwnRead
import Lakehouse.Proofs.Sync.FullRun
import Lakehouse.Proofs.Sync.Cause
import Lakehouse.Proofs.Sync.SourceProtocol
import Lakehouse.Proofs.Sync.RepeatedRun
import Lakehouse.Proofs.Format.Ordinal
import Lakehouse.Proofs.Arrow.Visited
import Lakehouse.Proofs.Arrow.RoundTrip
import Lakehouse.Proofs.Sync.Report
import Lakehouse.Proofs.Sync.LookUps
import Lakehouse.Proofs.Sync.Overlap
import Lakehouse.Proofs.Sync.BatchOrder
import Lakehouse.Proofs.Decimal.Rescale
import Lakehouse.Proofs.Partition.Truncation
import Lakehouse.Proofs.Calendar.Stamp
import Lakehouse.Proofs.Format.Encodings
import Lakehouse.Proofs.Format.InstantText
import Lakehouse.Proofs.Calendar.DatePattern.Division
import Lakehouse.Proofs.Calendar.DatePattern.Bounds
import Lakehouse.Proofs.Format.OrdinalFault
import Lakehouse.Proofs.Partition.Fatal
import Lakehouse.Proofs.Format.IdentityPartition
import Lakehouse.Proofs.Partition.Spec
import Lakehouse.Schema.Builder
import Lakehouse.Proofs.Sync.Launch
import Lakehouse.Proofs.Config.Providers
import Lakehouse.Proofs.Format.StatisticFault
import Lakehouse.Proofs.Schema.Valid
import Lakehouse.Proofs.Schema.Leaf
import Lakehouse.Proofs.Format.Second
import Lakehouse.Proofs.Sync.Registry
import Lakehouse.Proofs.Json.RoundTrip
import Lakehouse.Proofs.Codec.Cursor
import Lakehouse.Proofs.Codec.Schema
import Lakehouse.Proofs.Native.Integer
import Lakehouse.Proofs.Codec.Value
