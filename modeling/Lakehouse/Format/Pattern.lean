import Lakehouse.Calendar.DatePattern
import Lakehouse.Partition.Transform

/-!
# The date patterns of the formats

Statistics and some partition values spell instants by fixed patterns.

Model of `STAT_TIMESTAMP_PATTERN`, `VALUE_TIMESTAMP_PATTERN` and `human_pattern`.
-/

namespace Lakehouse.DatePattern

/-- The pattern of a date: year, month, day. -/
def days : List Token :=
  [.field .year, .char '-', .field .month, .char '-', .field .day]

/-- The pattern of a time of day, to the second. -/
def clock : List Token :=
  [.field .hour, .char ':', .field .minute, .char ':', .field .second]

/-- How instants to the second are spelled. -/
def seconds : DatePattern := ⟨"yyyy-MM-dd HH:mm:ss", days ++ .char ' ' :: clock⟩

/-- How instants to the microsecond are spelled. -/
def micros : DatePattern :=
  ⟨"yyyy-MM-dd'T'HH:mm:ss.SSSSSS", days ++ .char 'T' :: clock ++ [.char '.', .field (.fraction 6)]⟩

/-- The fixed pattern of each transform, where a format leaves no choice. -/
def human : Transform → String
  | .year => "yyyy"
  | .month => "yyyy-MM"
  | .day => "yyyy-MM-dd"
  | .hour => "yyyy-MM-dd-HH"
  | .value => micros.source

end Lakehouse.DatePattern
