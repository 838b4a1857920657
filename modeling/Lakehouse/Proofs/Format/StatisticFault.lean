import Lakehouse.Format.Statistic
import Lakehouse.Proofs.Calendar.Instant
import Lakehouse.Proofs.Except
import Lakehouse.Proofs.Format.InstantText

/-!
# Why a statistic is refused

A bound of a column is refused because it cannot be read, or because its column has no statistics.
The schema of the column is never at fault, unless it is the one of a decimal without its numbers.

* `FailsIn`: the faults of a computation are of certain kinds. A composed computation fails as its
  steps do.
* `TableFormat.failsIn_statToNative`, `TableFormat.failsIn_statFromNative`: the faults of a bound.
-/

namespace Lakehouse

/-! ## Faults of certain kinds -/

/-- Whatever a computation fails with is of one of some kinds. -/
def FailsIn {α : Type} (kinds : List Fault.Kind) (x : Except Fault α) : Prop :=
  ∀ f, x = .error f → f.kind ∈ kinds

section FailsIn

variable {α β : Type} {kinds kinds' : List Fault.Kind}

@[simp]
theorem failsIn_ok (a : α) : FailsIn kinds (.ok a) := nofun

@[simp]
theorem failsIn_error {f : Fault} : FailsIn (α := α) kinds (.error f) ↔ f.kind ∈ kinds := by
  constructor
  · exact fun h => h f rfl
  · rintro h _ ⟨⟩
    exact h

theorem FailsIn.bind {x : Except Fault α} {g : α → Except Fault β} (hx : FailsIn kinds x)
    (hg : ∀ a, FailsIn kinds (g a)) : FailsIn kinds (x >>= g) := by
  intro f h
  rcases bind_eq_error.mp h with h | ⟨a, -, h⟩
  · exact hx f h
  · exact hg a f h

theorem FailsIn.mono {x : Except Fault α} (h : FailsIn kinds x) (hsub : kinds ⊆ kinds') :
    FailsIn kinds' x :=
  fun f hf => hsub (h f hf)

theorem failsIn_of_kind {x : Except Fault α} {kind : Fault.Kind}
    (h : ∀ f, x = .error f → f.kind = kind) : FailsIn [kind] x :=
  fun f hf => List.mem_singleton.mpr (h f hf)

end FailsIn

/-! ## Days and instants -/

theorem EpochDay.failsIn_iso (day : Int32) : FailsIn [.parseException] (EpochDay.iso day) := by
  unfold EpochDay.iso EpochDay.date
  refine FailsIn.bind ?_ fun _ => failsIn_ok _
  split <;> simp

theorem EpochDay.failsIn_read (text : String) :
    FailsIn [.parseException] (EpochDay.read text) := by
  unfold EpochDay.read
  split <;> simp

theorem DatePattern.failsIn_writeMillis (p : DatePattern) (millis : Int64) :
    FailsIn [.parseException] (p.writeMillis millis) := by
  unfold writeMillis
  split <;> simp [instantFault]

/-! ## Native values -/

namespace Native

variable (v : Value) (type : DataType)

theorem failsIn_readInt : FailsIn [.parseException] (readInt v) := by
  cases v with
  | int => simp [readInt]
  | long | string =>
    unfold readInt
    simp only
    split <;> simp
  | _ => simp [readInt, unexpected]

theorem failsIn_readLong : FailsIn [.parseException] (readLong v) := by
  cases v with
  | int | long => simp [readLong]
  | string =>
    unfold readLong
    simp only
    split <;> simp
  | _ => simp [readLong, unexpected]

theorem failsIn_readBoolean : FailsIn [.parseException] (readBoolean v) := by
  cases v with
  | boolean => simp [readBoolean]
  | string s =>
    simp only [readBoolean]
    by_cases htrue : Text.sameLetters (Text.trim s) "true" = true
    · simp [htrue]
    · by_cases hfalse : Text.sameLetters (Text.trim s) "false" = true <;>
        simp [htrue, hfalse, unexpected]
  | _ => simp [readBoolean, unexpected]

theorem failsIn_readFloatText (text : String) :
    FailsIn [.parseException] (readFloatText text) := by
  unfold readFloatText
  split
  · simp
  · simp
  · simp
  · simp
  · split <;> simp

theorem failsIn_toDouble : FailsIn [.parseException] (toDouble v type) := by
  cases v with
  | float | double | int | long => simp [toDouble]
  | string s => exact failsIn_readFloatText s
  | _ => simp [toDouble, unexpected]

theorem failsIn_readFloating : FailsIn [.parseException] (readFloating v type) := by
  unfold readFloating
  split
  · simp
  · exact (failsIn_toDouble v _).bind fun _ => failsIn_ok _
  · exact (failsIn_toDouble v _).bind fun _ => failsIn_ok _

theorem failsIn_readCommon : FailsIn [.parseException] (readCommon v type) := by
  cases type with
  | int => exact (failsIn_readInt v).bind fun _ => failsIn_ok _
  | long => exact (failsIn_readLong v).bind fun _ => failsIn_ok _
  | boolean => exact (failsIn_readBoolean v).bind fun _ => failsIn_ok _
  | float | double => exact (failsIn_readFloating v _).bind fun _ => failsIn_ok _
  | string | enumeration | uuid => cases v <;> simp [readCommon, unexpected]
  | _ => simp [readCommon]

theorem failsIn_toDecimal : FailsIn [.parseException] (toDecimal v) := by
  have htext : ∀ text, FailsIn [.parseException] (readDecimalText text) := by
    intro text
    unfold readDecimalText
    split <;> simp
  cases v with
  | int | long | decimal => simp [toDecimal]
  | float x | double x =>
    by_cases hfinite : x.isFinite = true
    · simp [toDecimal, hfinite, htext]
    · simp [toDecimal, hfinite, notDecimal]
  | string s => exact htext s
  | _ => simp [toDecimal, notDecimal]

theorem failsIn_readDecimal (precision scale : Nat) :
    FailsIn [.parseException] (readDecimal v precision scale) := by
  refine (failsIn_toDecimal v).bind fun d => failsIn_of_kind fun f h => ?_
  obtain ⟨misfit, -, rfl⟩ := mapError_eq_error.mp h
  rfl

end Native

/-- A decimal whose numbers are declared is refused for what it is. -/
theorem Schema.failsIn_readDecimal {s : Schema} (hspec : ∃ spec, s.decimalSpec = .ok spec)
    (v : Value) : FailsIn [.parseException] (s.readDecimal v) := by
  obtain ⟨⟨precision, scale⟩, hspec⟩ := hspec
  unfold Schema.readDecimal
  rw [hspec]
  exact (Native.failsIn_readDecimal v precision scale).bind fun _ => failsIn_ok _

/-! ## Bounds -/

namespace TableFormat

variable (f : TableFormat)

theorem failsIn_writeDay (day : Int32) : FailsIn [.parseException] (f.writeDay day) := by
  cases f with
  | hudi | iceberg => simp [writeDay]
  | delta => exact (EpochDay.failsIn_iso day).bind fun _ => failsIn_ok _

theorem failsIn_writeInstant (p : Precision) (instant : Int64) :
    FailsIn [.parseException] (f.writeInstant p instant) := by
  cases f with
  | hudi => simp [writeInstant]
  | delta => exact (DatePattern.failsIn_writeMillis _ _).bind fun _ => failsIn_ok _
  | iceberg =>
    cases p with
    | micros => simp [writeInstant]
    | millis =>
      exact (failsIn_of_kind fun _ => Precision.kind_of_ofMillis).bind fun _ => failsIn_ok _

theorem failsIn_readDay (v : Value) : FailsIn [.parseException] (f.readDay v) := by
  cases v with
  | int => cases f <;> simp [readDay]
  | long instant =>
    cases f with
    | hudi => exact (Native.failsIn_readInt _).bind fun _ => failsIn_ok _
    | delta | iceberg => simp [readDay, Native.unexpected]
  | string text => cases f <;> exact (EpochDay.failsIn_read text).bind fun _ => failsIn_ok _
  | _ => cases f <;> simp [readDay, Native.unexpected]

theorem failsIn_readInstant (p : Precision) (type : DataType) (v : Value) :
    FailsIn [.parseException] (f.readInstant p type v) := by
  cases v with
  | int | long => cases f <;> simp [readInstant, Native.unexpected]
  | string text =>
    have hread : FailsIn [.parseException] (DatePattern.seconds.readMillis text) :=
      failsIn_of_kind fun _ => DatePattern.kind_of_readMillis
    have hunit : ∀ millis, FailsIn [.parseException] (p.ofMillis millis) := fun millis =>
      failsIn_of_kind fun _ => Precision.kind_of_ofMillis
    cases f <;> exact hread.bind fun millis => (hunit millis).bind fun _ => failsIn_ok _
  | _ => cases f <;> simp [readInstant, Native.unexpected]

variable {field : Schema}

/-- **A bound that is not stored cannot be read as what its column holds.** -/
theorem failsIn_statToNative (v : Value)
    (hspec : field.type = .decimal → ∃ spec, field.decimalSpec = .ok spec) :
    FailsIn [.parseException] (f.statToNative v field) := by
  unfold statToNative
  split
  · simp
  · split
    · exact f.failsIn_writeDay _
    · exact f.failsIn_writeInstant _ _
    · exact f.failsIn_writeInstant _ _
    · simp [Native.unexpected]
    · simp [Native.unexpected]
    · simp [Native.unexpected]
    · exact Schema.failsIn_readDecimal (hspec ‹field.type = .decimal›) _
    · simp

/-- **A native bound is refused for what it is**, or because the column has parts. -/
theorem failsIn_statFromNative (v : Value)
    (hspec : field.type = .decimal → ∃ spec, field.decimalSpec = .ok spec) :
    FailsIn [.parseException, .unsupportedSchemaType] (f.statFromNative v field) := by
  have hparse : [Fault.Kind.parseException] ⊆ [.parseException, .unsupportedSchemaType] := by simp
  unfold statFromNative
  split
  · simp
  · split
    · exact (f.failsIn_readDay v).mono hparse
    · exact (f.failsIn_readInstant _ _ v).mono hparse
    · exact (f.failsIn_readInstant _ _ v).mono hparse
    · exact (Schema.failsIn_readDecimal (hspec ‹field.type = .decimal›) v).mono hparse
    · refine ((Native.failsIn_readCommon v _).mono hparse).bind fun value => ?_
      cases value with
      | some value => simp
      | none =>
        simp only
        split <;> simp [noStatistics]

end TableFormat

end Lakehouse
