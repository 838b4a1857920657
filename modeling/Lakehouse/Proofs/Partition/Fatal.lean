import Lakehouse.Proofs.Calendar.DatePattern.Bounds
import Lakehouse.Proofs.Canonical
import Lakehouse.Proofs.Format.Encodings
import Lakehouse.Proofs.Partition.Refusal
import Lakehouse.Proofs.Partition.Truncation

/-!
# No value is fatal

A fatal fault ends the synchronisation of a table, so it must lie with the table and not with one
of its rows. A partition value or a text that is refused says so, and so does a column; what is
fatal is the date pattern, which all rows of the table share.

* `Bucket.exists_canonical_of_readMillis`: the bucket of a text always has a canonical value, since
  no text denotes an instant far from the supported years.
* `Bucket.render_eq_error`, `Bucket.parse_eq_error`: why a bucket is refused.
* `TableFormat.Misspecified`: the fault of a column's date pattern; it shows for each value and each
  text of the column alike.
* `TableFormat.partition_faults`: the kinds of fault that partition values have, and what is fatal.

About `partition_to_native` and `partition_from_native`, which are modelled in
`Format.PartitionValue`.
-/

namespace Lakehouse

variable {type : DataType} {t : Transform} {v : Value} {text source pattern : String} {f : Fault}

/-! ## Buckets -/

namespace Bucket

variable {millis begin : Int64}

/-- **The bucket of an instant that is read starts on a day that 32 bits count**: hours and days
start shortly before the instant, months and years in a supported year. -/
theorem start_fits (h : start t millis = .ok begin) (hlow : -8640000000000000 ≤ millis.toInt)
    (hhigh : millis.toInt < 8640000000001000) :
    -2 ^ 31 ≤ begin.toInt / EpochDay.millisPerDay ∧
      begin.toInt / EpochDay.millisPerDay < 2 ^ 31 := by
  have hcalendar : (∃ d, dateOf begin = .ok d) → -2 ^ 31 ≤ begin.toInt / EpochDay.millisPerDay ∧
      begin.toInt / EpochDay.millisPerDay < 2 ^ 31 := by
    rintro ⟨d, hd⟩
    obtain ⟨hvalid, hrange, hday⟩ := Ordinal.dateOf_eq_ok_iff.mp hd
    obtain ⟨hfirst, hlast⟩ := hrange.dayNumber_bounds hvalid
    omega
  cases t with
  | value =>
    cases h
    unfold EpochDay.millisPerDay
    omega
  | hour =>
    have hbegin := floorTo_eq_ok h
    unfold millisPerHour at hbegin
    unfold EpochDay.millisPerDay
    omega
  | day =>
    have hbegin := floorTo_eq_ok h
    unfold EpochDay.millisPerDay at hbegin ⊢
    omega
  | month | year => exact hcalendar (supported_start h)

/-- **The bucket of a text has a canonical value.** -/
theorem exists_canonical_of_readMillis {p : DatePattern}
    (hp : DatePattern.compile source = .ok p) (hread : p.readMillis text = .ok millis)
    (hstart : start t millis = .ok begin) (type : DataType) :
    ∃ value, canonical begin type = .ok value := by
  obtain ⟨hlow, hhigh⟩ := DatePattern.readMillis_bounds hp hread
  exact exists_canonical_of_fits (start_fits hstart hlow hhigh) type

/-- A date pattern is refused if it is blank or does not compile. -/
theorem pattern_eq_error (h : Bucket.pattern source t = .error f) :
    Text.isAllBlank source = true ∨ ∃ e, DatePattern.compile source = .error e := by
  unfold Bucket.pattern at h
  split at h
  · exact .inl ‹_›
  · obtain ⟨e, he, -⟩ := mapError_eq_error.mp h
    exact .inr ⟨e, he⟩

theorem kind_of_instant (h : instant v type = .error f) : f.kind = .invalidPartitionValue := by
  unfold instant at h
  split at h
  · rename_i day
    obtain ⟨millis, hmillis⟩ := Ordinal.exists_millis day
    cases hmillis.symm.trans h
  · cases h
  · cases h
  · cases h
    rfl

/-- **A value is refused as a bucket** for its column, for the pattern whatever the value is, or as
a value. -/
theorem render_eq_error (h : render v type t source = .error f) :
    (type.isTemporal = false ∧ f = unsupported type t) ∨
      (type.isTemporal = true ∧ Bucket.pattern source t = .error f) ∨
      f.kind = .invalidPartitionValue := by
  unfold render at h
  split at h
  · rename_i htype
    refine .inr ?_
    rcases bind_eq_error.mp h with h | ⟨p, -, h⟩
    · exact .inl ⟨htype, h⟩
    · refine .inr ?_
      rcases bind_eq_error.mp h with h | ⟨millis, -, h⟩
      · exact kind_of_instant h
      · rcases bind_eq_error.mp h with h | ⟨begin, -, h⟩
        · exact Fault.kind_of_recode h
        · exact Fault.kind_of_recode h
  · rename_i htype
    cases h
    exact .inl ⟨Bool.eq_false_iff.mpr htype, rfl⟩

/-- **A text is refused as a bucket** for its column, for the pattern whatever the text is, or as
a value. -/
theorem parse_eq_error (h : parse text type t source = .error f) :
    (type.isTemporal = false ∧ f = unsupported type t) ∨
      (type.isTemporal = true ∧ Bucket.pattern source t = .error f) ∨
      f.kind = .invalidPartitionValue := by
  unfold parse at h
  split at h
  · rename_i htype
    refine .inr ?_
    rcases bind_eq_error.mp h with h | ⟨p, hp, h⟩
    · exact .inl ⟨htype, h⟩
    · refine .inr ?_
      rcases bind_eq_error.mp h with h | ⟨begin, hbegin, h⟩
      · exact Fault.kind_of_recode h
      · -- the one failure that is not reclassified cannot happen
        obtain ⟨millis, hread, hstart⟩ := bind_eq_ok.mp (mapError_eq_ok.mp hbegin)
        obtain ⟨value, hvalue⟩ :=
          exists_canonical_of_readMillis (compile_of_pattern hp) hread hstart type
        cases hvalue.symm.trans h
  · rename_i htype
    cases h
    exact .inl ⟨Bool.eq_false_iff.mpr htype, rfl⟩

end Bucket

/-! ## The value by itself -/

/-- A value without a text of its own is refused as a value, or for the type of its column. -/
theorem Identity.render_eq_error (h : Identity.render v type = .error f) :
    f = Identity.unsupported type ∨ f.kind = .invalidPartitionValue := by
  unfold Identity.render at h
  split at h
  · cases h
    exact .inl rfl
  · cases h
    exact .inr rfl
  · cases h

namespace TableFormat

variable {format : TableFormat}

/-- A value that is no instant is refused for the pattern, whatever it is, or as a value. -/
theorem writeInstantText_eq_error {millis : Int64}
    (h : format.writeInstantText millis pattern = .error f) :
    format.instantPattern pattern = .error f ∨ f.kind = .invalidPartitionValue := by
  unfold writeInstantText at h
  rcases bind_eq_error.mp h with h | ⟨p, -, h⟩
  · exact .inl h
  · cases p with
    | none => cases h
    | some p => exact .inr (Fault.kind_of_recode h)

theorem writeIdentity_eq_error (h : format.writeIdentity v type pattern = .error f) :
    (type.isTimestamp = true ∧ format.instantPattern pattern = .error f) ∨
      f = Identity.unsupported type ∨ f.kind = .invalidPartitionValue := by
  unfold writeIdentity at h
  split at h
  · exact .inr (.inr (Fault.kind_of_recode h))
  · exact (writeInstantText_eq_error h).imp (⟨rfl, ·⟩) .inr
  · exact (writeInstantText_eq_error h).imp (⟨rfl, ·⟩) .inr
  · cases h
    exact .inr (.inr rfl)
  · cases h
    exact .inr (.inr rfl)
  · cases h
    exact .inr (.inr rfl)
  · exact .inr (Identity.render_eq_error h)

/-! ## The pattern of a column -/

/-- A fault of the date pattern of a column, asked for as a conversion asks for it. -/
inductive Misspecified (format : TableFormat) (type : DataType) (t : Transform) (pattern : String)
    (f : Fault) : Prop where
  | bucket (ht : t.isTimeBased = true) (htype : type.isTemporal = true)
      (h : Bucket.pattern (format.bucketPattern t pattern) t = .error f)
  | instant (ht : t.isTimeBased = false) (htype : type.isTimestamp = true)
      (h : format.instantPattern pattern = .error f)

/-- A pattern that no buckets can be named by: it does not compile, or it is blank. Without a
transform of time a blank pattern stands for none. -/
def Unusable (t : Transform) (pattern : String) : Prop :=
  (∃ e, DatePattern.compile pattern = .error e) ∨
    (Text.isAllBlank pattern = true ∧ t.isTimeBased = true)

/-- The fixed pattern of a transform can be used. -/
theorem pattern_human (t : Transform) : ∃ p, Bucket.pattern (DatePattern.human t) t = .ok p :=
  ⟨_, Bucket.pattern_eq_ok t (DatePattern.compile_human t) (DatePattern.names_human t).year⟩

namespace Misspecified

theorem kind (h : Misspecified format type t pattern f) : f.kind = .invalidPartitionSpec := by
  cases h with
  | bucket _ _ h => exact Bucket.kind_of_pattern h
  | instant _ _ h => exact kind_of_instantPattern h

/-- **Only a pattern that is configured is at fault**, and only one that cannot be used. -/
theorem unusable (h : Misspecified format type t pattern f) :
    (format = hudi ∨ format = delta) ∧ Unusable t pattern := by
  cases h with
  | bucket ht _ h =>
    cases format with
    | iceberg =>
      obtain ⟨p, hp⟩ := pattern_human t
      cases hp.symm.trans h
    | hudi => exact ⟨.inl rfl, (Bucket.pattern_eq_error h).symm.imp_right (⟨·, ht⟩)⟩
    | delta => exact ⟨.inr rfl, (Bucket.pattern_eq_error h).symm.imp_right (⟨·, ht⟩)⟩
  | instant _ _ h =>
    have hcompile : ∀ {p : Option DatePattern},
        (if Text.isAllBlank pattern then .ok p else do
          return some (← (DatePattern.compile pattern).mapError
            (Fault.recode .invalidPartitionSpec))) = .error f →
        ∃ e, DatePattern.compile pattern = .error e := by
      intro p h
      split at h
      · cases h
      · rcases bind_eq_error.mp h with h | ⟨q, -, h⟩
        · obtain ⟨e, he, -⟩ := mapError_eq_error.mp h
          exact ⟨e, he⟩
        · cases h
    cases format with
    | iceberg => cases h
    | hudi => exact ⟨.inl rfl, .inl (hcompile h)⟩
    | delta => exact ⟨.inr rfl, .inl (hcompile h)⟩

/-- The pattern is at fault for every text. -/
theorem partitionFromNative (h : Misspecified format type t pattern f) (text : String) :
    format.partitionFromNative (some text) type t pattern = .error f := by
  cases h with
  | bucket ht htype h =>
    rw [partitionFromNative_of_timeBased ht]
    unfold Bucket.parse
    rw [if_pos htype, h]
    rfl
  | instant ht htype h =>
    rw [partitionFromNative_of_value ht]
    cases type with
    | timestamp | timestampNtz =>
      unfold readIdentity readInstantText
      simp only [h]
      rfl
    | _ => cases htype

/-- The pattern is at fault for every value that is present. -/
theorem partitionToNative (h : Misspecified format type t pattern f) (hv : Canonical type v)
    (hpresent : v.isNull = false) : format.partitionToNative v type t pattern = .error f := by
  cases h with
  | bucket ht htype h =>
    unfold TableFormat.partitionToNative Bucket.render
    rw [hpresent, if_neg Bool.false_ne_true, if_pos ht, if_pos htype, h]
    rfl
  | instant ht htype h =>
    unfold TableFormat.partitionToNative
    rw [hpresent, if_neg Bool.false_ne_true, if_neg (Bool.eq_false_iff.mp ht)]
    cases hv with
    | null => cases hpresent
    | timestamp | timestampNtz =>
      simp only [writeIdentity, writeInstantText, h]
      rfl
    | _ => cases htype

end Misspecified

/-! ## Every fault of a partition value -/

/-- **A value is refused** for the pattern of its column, as a value, or for the column itself. -/
theorem partitionToNative_eq_error (h : format.partitionToNative v type t pattern = .error f) :
    Misspecified format type t pattern f ∨ f.kind = .invalidPartitionValue ∨
      f.kind.isUnsupported = true := by
  unfold partitionToNative at h
  split at h
  · cases h
  · split at h
    · rename_i ht
      rcases bind_eq_error.mp h with h | ⟨written, -, h⟩
      · rcases Bucket.render_eq_error h with ⟨-, rfl⟩ | ⟨htype, h⟩ | h
        · exact .inr (.inr rfl)
        · exact .inl (.bucket ht htype h)
        · exact .inr (.inl h)
      · cases h
    · rename_i ht
      rcases bind_eq_error.mp h with h | ⟨written, -, h⟩
      · rcases writeIdentity_eq_error h with ⟨htype, h⟩ | rfl | h
        · exact .inl (.instant (Bool.eq_false_iff.mpr ht) htype h)
        · exact .inr (.inr rfl)
        · exact .inr (.inl h)
      · cases h

/-- **A text is refused** for the pattern of its column, as a value, or for the column itself. -/
theorem partitionFromNative_eq_error {native : Option String}
    (h : format.partitionFromNative native type t pattern = .error f) :
    Misspecified format type t pattern f ∨ f.kind = .invalidPartitionValue ∨
      f.kind.isUnsupported = true := by
  cases native with
  | none => cases h
  | some text =>
    cases ht : t.isTimeBased with
    | true =>
      rw [partitionFromNative_of_timeBased ht] at h
      rcases Bucket.parse_eq_error h with ⟨-, rfl⟩ | ⟨htype, h⟩ | h
      · exact .inr (.inr rfl)
      · exact .inl (.bucket ht htype h)
      · exact .inr (.inl h)
    | false =>
      rw [partitionFromNative_of_value ht] at h
      rcases readIdentity_eq_error h with ⟨htype, h⟩ | h | ⟨rfl, -, -⟩
      · exact .inl (.instant ht htype h)
      · exact .inr (.inl h)
      · exact .inr (.inr rfl)

/-- **Every fault of a partition value says what is at fault, and no value is fatal.** Whatever is
converted, a fault is one of the value or the text, of the pattern, or of the column. Just the
faults of the pattern are fatal: they occur only where a format takes the configured pattern, if
this does not compile or is blank under a transform of time; and then they occur for every text and
for every value of the column that is present. -/
theorem partition_faults (format : TableFormat) (type : DataType) (t : Transform)
    (pattern : String) (f : Fault)
    (h : (∃ v, format.partitionToNative v type t pattern = .error f) ∨
      ∃ native, format.partitionFromNative native type t pattern = .error f) :
    (f.kind = .invalidPartitionValue ∨ f.kind = .invalidPartitionSpec ∨
      f.kind = .unsupportedFeature ∨ f.kind = .unsupportedSchemaType) ∧
    (f.isFatal = true ↔ f.kind = .invalidPartitionSpec) ∧
    (f.isFatal = true → (format = hudi ∨ format = delta) ∧ Unusable t pattern ∧
      (∀ text, format.partitionFromNative (some text) type t pattern = .error f) ∧
      ∀ v, Canonical type v → v.isNull = false →
        format.partitionToNative v type t pattern = .error f) := by
  have hcause : Misspecified format type t pattern f ∨ f.kind = .invalidPartitionValue ∨
      f.kind.isUnsupported = true := by
    rcases h with ⟨v, h⟩ | ⟨native, h⟩
    · exact partitionToNative_eq_error h
    · exact partitionFromNative_eq_error h
  unfold Fault.isFatal
  rcases hcause with hpattern | hvalue | hcolumn
  · rw [hpattern.kind]
    exact ⟨.inr (.inl rfl), iff_of_true rfl rfl, fun _ => ⟨hpattern.unusable.1,
      hpattern.unusable.2, hpattern.partitionFromNative,
      fun v hv hpresent => hpattern.partitionToNative hv hpresent⟩⟩
  · rw [hvalue]
    exact ⟨.inl rfl, iff_of_false nofun nofun, nofun⟩
  · generalize f.kind = kind at hcolumn
    cases kind with
    | unsupportedFeature =>
      exact ⟨.inr (.inr (.inl rfl)), iff_of_false nofun nofun, nofun⟩
    | unsupportedSchemaType =>
      exact ⟨.inr (.inr (.inr rfl)), iff_of_false nofun nofun, nofun⟩
    | _ => cases hcolumn

/-- A pattern with a letter that stands for nothing is at fault for every text. The leap second
behind the last supported year is a text like any other. -/
theorem partition_faults_week :
    (∃ f, f.isFatal = true ∧
      ∀ text, delta.partitionFromNative (some text) .date .day "yyyy-'W'ww" = .error f) ∧
    ∃ f, hudi.partitionFromNative (some "+262142-12-31 23:59:60") .date .year
        "yyyy-MM-dd HH:mm:ss" = .error f ∧
      f.kind = .invalidPartitionValue ∧ f.isFatal = false := by
  have hcheck : DatePattern.check "yyyy-'W'ww".toList = .error (.unsupportedRun 'w' 2) := by cbv
  obtain ⟨f, hpattern⟩ : ∃ f, Bucket.pattern "yyyy-'W'ww" .day = .error f := by
    unfold Bucket.pattern
    rw [if_neg (by decide), DatePattern.compile_eq, hcheck]
    exact ⟨_, rfl⟩
  have hweek : Misspecified delta .date .day "yyyy-'W'ww" f := .bucket rfl rfl hpattern
  have hfatal : f.isFatal = true := by rw [Fault.isFatal, hweek.kind, Fault.Kind.isFatal]
  have htext := hweek.partitionFromNative "2022-W40"
  have hseconds : Bucket.pattern (hudi.bucketPattern .year "yyyy-MM-dd HH:mm:ss") .year =
      .ok .seconds := Bucket.pattern_eq_ok _ DatePattern.compile_seconds (f := .year) (by decide)
  have hread : DatePattern.seconds.readMillis "+262142-12-31 23:59:60" = .ok 8210266876800000 := by
    decide +kernel
  have hstart : Bucket.start .year 8210266876800000 =
      .error (DatePattern.instantFault 8210266876800000) := by decide +kernel
  have hleap : hudi.partitionFromNative (some "+262142-12-31 23:59:60") .date .year
      "yyyy-MM-dd HH:mm:ss" = .error ((DatePattern.instantFault 8210266876800000).recode
        .invalidPartitionValue) := by
    rw [partitionFromNative_of_timeBased rfl]
    unfold Bucket.parse
    rw [if_pos (by rfl), hseconds, ok_bind, hread, ok_bind, hstart]
    rfl
  refine ⟨⟨f, hfatal, ((partition_faults _ _ _ _ f (.inr ⟨_, htext⟩)).2.2 hfatal).2.2.1⟩,
    ⟨_, hleap, rfl, ?_⟩⟩
  rw [Bool.eq_false_iff, Ne, (partition_faults _ _ _ _ _ (.inr ⟨_, hleap⟩)).2.1]
  exact Fault.Kind.noConfusion

end TableFormat

end Lakehouse
