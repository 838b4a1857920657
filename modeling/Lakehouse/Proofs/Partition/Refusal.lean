import Lakehouse.Format.PartitionValue
import Lakehouse.Proofs.Except

/-!
# What is wrong with a text that is read as a partition value

A text may be refused because it denotes no value of the column, because the date pattern is no
pattern, or because no text at all is read as a value of the column's type. The last is a property
of the type alone.

* `Fault.Kind.isUnsupported`: the faults that lie with the type or the transform of the column.
* `TableFormat.readIdentity_eq_error`: what a fault under the value transform says.
* `TableFormat.unsupported_iff`: of the columns that texts are written for, those that hold bytes
  are the ones no text is read for.
-/

namespace Lakehouse

/-- Whether a fault says that the type of a column, or its transform, cannot be dealt with. -/
def Fault.Kind.isUnsupported : Fault.Kind → Bool
  | unsupportedSchemaType | unsupportedFeature => true
  | _ => false

theorem Fault.kind_of_recode {α : Type} {x : Except Fault α} {kind : Fault.Kind} {f : Fault}
    (h : x.mapError (Fault.recode kind) = .error f) : f.kind = kind := by
  obtain ⟨e, -, rfl⟩ := mapError_eq_error.mp h
  rfl

/-- The types that hold bytes. -/
def DataType.isBinary : DataType → Bool
  | bytes | fixed => true
  | _ => false

variable {type : DataType} {t : Transform} {text pattern : String} {f : Fault} {v : Value}

/-! ## Buckets -/

theorem Bucket.kind_of_pattern {p : String} (h : Bucket.pattern p t = .error f) :
    f.kind = .invalidPartitionSpec := by
  unfold Bucket.pattern at h
  split at h
  · cases h
    rfl
  · exact Fault.kind_of_recode h

theorem EpochDay.kind_of_ofMillis {instant : Int64} (h : EpochDay.ofMillis instant = .error f) :
    f.kind = .parseException := by
  unfold EpochDay.ofMillis at h
  split at h
  · cases h
  · cases h
    rfl

theorem Bucket.kind_of_canonical {instant : Int64} (h : Bucket.canonical instant type = .error f) :
    f.kind = .parseException := by
  unfold Bucket.canonical at h
  split at h
  · rcases bind_eq_error.mp h with h | ⟨day, -, h⟩
    · exact EpochDay.kind_of_ofMillis h
    · cases h
  · cases h

/-- A text is never refused as a bucket because of the type, where the type holds points in time. -/
theorem Bucket.not_unsupported_of_parse (htype : type.isTemporal = true)
    (h : Bucket.parse text type t pattern = .error f) : f.kind.isUnsupported = false := by
  unfold Bucket.parse at h
  rw [if_pos htype] at h
  rcases bind_eq_error.mp h with h | ⟨p, -, h⟩
  · rw [kind_of_pattern h]
    rfl
  · rcases bind_eq_error.mp h with h | ⟨begin, -, h⟩
    · rw [Fault.kind_of_recode h]
      rfl
    · rw [kind_of_canonical h]
      rfl

/-! ## The value by itself -/

namespace TableFormat

variable {format : TableFormat}

theorem kind_of_instantPattern (h : format.instantPattern pattern = .error f) :
    f.kind = .invalidPartitionSpec := by
  unfold instantPattern at h
  cases format with
  | hudi | delta =>
    simp only at h
    split at h
    · cases h
    · rcases bind_eq_error.mp h with h | ⟨p, -, h⟩
      · exact Fault.kind_of_recode h
      · cases h
  | iceberg => cases h

/-- A text that is no instant is refused for the pattern, whatever it says, or for what it says. -/
theorem readInstantText_eq_error (h : format.readInstantText text pattern = .error f) :
    format.instantPattern pattern = .error f ∨ f.kind = .invalidPartitionValue := by
  unfold readInstantText at h
  rcases bind_eq_error.mp h with h | ⟨p, -, h⟩
  · exact .inl h
  · cases p with
    | none => exact .inr (Fault.kind_of_recode h)
    | some p => exact .inr (Fault.kind_of_recode h)

/-- **A text is refused under the value transform** for the pattern, whatever it says, for what it
says, or because no text is read as a value of the type. -/
theorem readIdentity_eq_error (h : format.readIdentity text type pattern = .error f) :
    (type.isTimestamp = true ∧ format.instantPattern pattern = .error f) ∨
      f.kind = .invalidPartitionValue ∨
      (f = Identity.unsupported type ∧ type.isTemporal = false ∧
        Identity.isReadable type = false) := by
  have hparse : type.isTemporal = false → Identity.parse text type = .error f →
      f.kind = .invalidPartitionValue ∨ (f = Identity.unsupported type ∧
        type.isTemporal = false ∧ Identity.isReadable type = false) := by
    intro htype hparse
    unfold Identity.parse at hparse
    split at hparse
    · exact .inl (Fault.kind_of_recode hparse)
    · rename_i hreadable
      cases hparse
      exact .inr ⟨rfl, htype, Bool.not_eq_true _ ▸ hreadable⟩
  unfold readIdentity at h
  cases type with
  | date =>
    rcases bind_eq_error.mp h with h | ⟨day, -, h⟩
    · exact .inr (.inl (Fault.kind_of_recode h))
    · cases h
  | timestamp | timestampNtz =>
    rcases bind_eq_error.mp h with h | ⟨instant, -, h⟩
    · exact (readInstantText_eq_error h).imp (⟨rfl, ·⟩) .inl
    · cases h
  | _ => exact .inr (hparse rfl h)

theorem kind_of_readIdentity (h : format.readIdentity text type pattern = .error f) :
    f.kind = .invalidPartitionSpec ∨ f.kind = .invalidPartitionValue ∨
      (f = Identity.unsupported type ∧ type.isTemporal = false ∧
        Identity.isReadable type = false) :=
  (readIdentity_eq_error h).imp_left fun hpattern => kind_of_instantPattern hpattern.2

/-! ## Columns that texts are written for -/

/-- A value that is written by itself is of a type that is read as well, or holds bytes. -/
theorem readable_or_binary (h : format.writeIdentity v type pattern = .ok text) :
    type.isTemporal = true ∨ Identity.isReadable type = true ∨ type.isBinary = true := by
  cases type with
  | date | timestamp | timestampNtz => exact .inl rfl
  | string | enumeration | uuid | int | long | boolean | float | double | decimal =>
    exact .inr (.inl rfl)
  | bytes | fixed => exact .inr (.inr rfl)
  | record | list | map | null =>
    simp [writeIdentity, Identity.render, Identity.accepts?] at h

theorem partitionFromNative_of_timeBased (htime : t.isTimeBased = true) :
    format.partitionFromNative (some text) type t pattern =
      Bucket.parse text type t (format.bucketPattern t pattern) := if_pos htime

theorem partitionFromNative_of_value (htime : t.isTimeBased = false) :
    format.partitionFromNative (some text) type t pattern =
      format.readIdentity text type pattern := if_neg (Bool.eq_false_iff.mp htime)

theorem writeIdentity_of_value (htime : t.isTimeBased = false)
    (h : format.partitionToNative v type t pattern = .ok (some text)) :
    format.writeIdentity v type pattern = .ok text := by
  unfold partitionToNative at h
  rw [if_neg (Bool.eq_false_iff.mp htime)] at h
  split at h
  · cases h
  · obtain ⟨written, hwritten, h⟩ := bind_eq_ok.mp h
    cases h
    exact hwritten

/-- **Of the columns that texts are written for, those that hold bytes are refused**, and no other:
whatever the text and the pattern are, no fault lies with the type of such a column. -/
theorem unsupported_iff (htransform : t.isTimeBased = true → type.isTemporal = true)
    (h : format.partitionToNative v type t pattern = .ok (some text)) :
    (∃ f, format.partitionFromNative (some text) type t pattern = .error f ∧
      f.kind.isUnsupported = true) ↔ type.isBinary = true := by
  cases htime : t.isTimeBased with
  | true =>
    have htype := htransform htime
    have hbinary : type.isBinary = false := by
      cases type with
      | date | timestamp | timestampNtz => rfl
      | _ => cases htype
    rw [partitionFromNative_of_timeBased htime, hbinary]
    refine iff_of_false ?_ Bool.false_ne_true
    rintro ⟨f, hf, hkind⟩
    rw [Bucket.not_unsupported_of_parse htype hf] at hkind
    cases hkind
  | false =>
    rw [partitionFromNative_of_value htime]
    constructor
    · rintro ⟨f, hf, hkind⟩
      rcases kind_of_readIdentity hf with hspec | hvalue | ⟨-, htype, hunread⟩
      · rw [hspec] at hkind
        cases hkind
      · rw [hvalue] at hkind
        cases hkind
      · rcases readable_or_binary (writeIdentity_of_value htime h) with hother | hread | hbinary
        · rw [htype] at hother
          cases hother
        · rw [hunread] at hread
          cases hread
        · exact hbinary
    · intro hbinary
      refine ⟨Identity.unsupported type, ?_, rfl⟩
      cases type with
      | bytes | fixed => rfl
      | _ => cases hbinary

end TableFormat

end Lakehouse
