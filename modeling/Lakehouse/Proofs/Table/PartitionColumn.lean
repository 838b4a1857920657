import Lakehouse.Proofs.Partition.Refusal
import Lakehouse.Proofs.Schema.Path
import Lakehouse.Table.Basic

/-!
# What may be a partition column

A table is checked once, when it is described; the values of its partition columns are written and
read much later. The check passes more than is read: it finds columns inside of lists and maps,
which are not among the listed columns, and it passes columns of bytes, for which texts are written
that are then refused.

* `Table.checkField_eq_ok`: what the check of a partition column asks.
* `Table.partition_columns_agree_iff`: which of the columns that pass are listed, and for which of
  them a text is read.
* `Table.bytes_and_elements_disagree`: a table with one column of each kind that is passed only.

About `InternalTable::new`, which is modelled in `Table.Basic`, and the texts of
`Partition.Identity`.
-/

namespace Lakehouse.Table

variable {t u : Table} {name : String} {schema : Schema} {p : PartitionField}

/-- A partition column passes if it is found, makes buckets only of points in time, and is not
structural. -/
theorem checkField_eq_ok : checkField name schema p = .ok () ↔
    ∃ column, schema.find? p.source = some column ∧
      (p.transform.isTimeBased = true → column.schema.type.isTemporal = true) ∧
      column.schema.type.isStructural = false := by
  unfold checkField
  cases schema.find? p.source with
  | none => simp
  | some column =>
    simp only [Option.some.injEq, exists_eq_left']
    by_cases hbucket : (p.transform.isTimeBased && !column.schema.type.isTemporal) = true
    · rw [if_pos hbucket]
      rw [Bool.and_eq_true, Bool.not_eq_true'] at hbucket
      refine iff_of_false nofun fun h => ?_
      rw [h.1 hbucket.1] at hbucket
      exact Bool.noConfusion hbucket.2
    · rw [if_neg hbucket]
      have htemporal : p.transform.isTimeBased = true → column.schema.type.isTemporal = true := by
        intro htime
        simpa [htime] using hbucket
      rw [and_iff_right htemporal]
      by_cases hstructural : column.schema.type.isStructural = true
      · simp [hstructural]
      · simp [hstructural]

theorem check_eq_ok : t.check = .ok () ↔ t.schema.type = .record ∧
    ∀ p ∈ t.partitionFields, checkField t.name t.schema p = .ok () := by
  unfold check
  by_cases hrecord : t.schema.type = .record
  · rw [if_neg (not_not_intro hrecord), forM_eq_ok, and_iff_right hrecord]
  · simp [hrecord]

/-- A table is described as it is, if it passes the check. -/
theorem make_eq_ok : t.make = .ok u ↔ t = u ∧ t.check = .ok () := by
  unfold make
  rw [bind_eq_ok]
  constructor
  · rintro ⟨_, hcheck, h⟩
    cases h
    exact ⟨rfl, mapError_eq_ok.mp hcheck⟩
  · rintro ⟨rfl, hcheck⟩
    exact ⟨(), mapError_eq_ok.mpr hcheck, rfl⟩

/-- **Of the partition columns that pass, those that records lead to are listed, and those that hold
no bytes are read.** For each of them the check has found a column. Its path is among the listed
columns exactly if only records are on it. A text that was written for a value of it is refused for
the type or the transform exactly if the column holds bytes, in every format and with every
pattern. -/
theorem partition_columns_agree_iff (hmake : t.make = .ok u)
    (hbuilt : u.schema.Everywhere Schema.IsBuilt)
    (hplain : u.schema.Everywhere Schema.HasPlainNames) (hp : p ∈ u.partitionFields) :
    ∃ column, u.schema.find? p.source = some column ∧
      (p.source ∈ u.schema.leafPaths ↔
        Schema.ReachesIn u.schema.fields (Schema.segments p.source) column) ∧
      ∀ (format : TableFormat) (v : Value) (pattern text : String),
        format.partitionToNative v column.schema.type p.transform pattern = .ok (some text) →
        ((∃ f, format.partitionFromNative (some text) column.schema.type p.transform pattern =
            .error f ∧ f.kind.isUnsupported = true) ↔ column.schema.type.isBinary = true) := by
  obtain ⟨rfl, hcheck⟩ := make_eq_ok.mp hmake
  obtain ⟨hrecord, hfields⟩ := check_eq_ok.mp hcheck
  obtain ⟨column, hfind, htemporal, hflat⟩ := checkField_eq_ok.mp (hfields p hp)
  have hleaf : column.schema.type ≠ .record := by
    intro h
    rw [h] at hflat
    cases hflat
  exact ⟨column, hfind, Schema.mem_leafPaths_iff hrecord hbuilt hplain hfind hleaf,
    fun format v pattern text => TableFormat.unsupported_iff htemporal⟩

/-- A node of a type without metadata. -/
def plainNode (name : String) (type : DataType) (fields : List Field) : Schema :=
  ⟨name, type, none, false, fields, .empty⟩

/-- A table that is partitioned by the city of a place. -/
def visitsByCity : Table where
  name := "visits"
  basePath := "/data/visits"
  dataPath := none
  sourceFormat := "HUDI"
  schema := plainNode "visits" .record
    [⟨"place", none, plainNode "place" .record [⟨"city", none, plainNode "city" .string []⟩]⟩]
  partitionFields := [⟨"place.city", .value⟩]
  latestCommit := ⟨"1", ⟨10, 0⟩⟩

/-- A column inside of a record is listed, and what is written for it is read. -/
theorem partition_columns_agree_iff_city :
    "place.city" ∈ visitsByCity.schema.leafPaths ∧
      TableFormat.delta.partitionToNative (.string "Oslo") .string .value "" =
        .ok (some "Oslo") ∧
      ¬ ∃ f, TableFormat.delta.partitionFromNative (some "Oslo") .string .value "" = .error f ∧
        f.kind.isUnsupported = true := by
  have hmake : visitsByCity.make = .ok visitsByCity := rfl
  obtain ⟨column, hfind, hlisted, hread⟩ := partition_columns_agree_iff
    hmake (by decide +kernel) (by decide +kernel) (p := ⟨"place.city", .value⟩) List.mem_cons_self
  have hcity : visitsByCity.schema.find? "place.city" =
      some ⟨"city", none, plainNode "city" .string []⟩ := by decide +kernel
  rw [hcity] at hfind
  cases hfind
  have hnames : Schema.segments "place.city" = ["place", "city"] := by decide +kernel
  have htext : TableFormat.delta.partitionToNative (.string "Oslo") .string .value "" =
      .ok (some "Oslo") := rfl
  refine ⟨hlisted.mpr ?_, htext, fun h => ?_⟩
  · rw [hnames]
    exact .within List.mem_cons_self rfl (.here List.mem_cons_self)
  · cases (hread .delta (.string "Oslo") "" "Oslo" htext).mp h

/-- A table that is partitioned by a key of bytes and by the elements of a list. -/
def visitsByKey : Table :=
  { visitsByCity with
    schema := plainNode "visits" .record
      [⟨"key", none, plainNode "key" .bytes []⟩,
        ⟨"tags", none, plainNode "tags" .list
          [⟨"element", none, plainNode "element" .string []⟩]⟩]
    partitionFields := [⟨"key", .value⟩, ⟨"tags.element", .value⟩] }

/-- **The check passes what is not listed, and what is not read**: the elements of a list are no
column of the table, and the text written for bytes is refused for its type. -/
theorem bytes_and_elements_disagree :
    visitsByKey.make = .ok visitsByKey ∧
      visitsByKey.schema.Everywhere Schema.IsBuilt ∧
      visitsByKey.schema.Everywhere Schema.HasPlainNames ∧
      visitsByKey.schema.leafPaths = ["key", "tags"] ∧
      TableFormat.hudi.partitionToNative (.bytes [0xca, 0xfe]) .bytes .value "" =
        .ok (some "cafe") ∧
      TableFormat.hudi.partitionFromNative (some "cafe") .bytes .value "" =
        .error (Identity.unsupported .bytes) := by
  refine ⟨?_, ?_, ?_, ?_, ?_, ?_⟩
  · rfl
  · decide +kernel
  · decide +kernel
  · simp [visitsByKey, plainNode, Schema.leafPaths, Schema.leafPathsIn, Schema.extend]
  · rfl
  · rfl

end Lakehouse.Table
