import Lakehouse.Proofs.Arrow.Visited
import Lakehouse.Proofs.Format.StatisticFault
import Lakehouse.Proofs.Schema.Built
import Lakehouse.Schema.Builder

/-!
# Every schema that is built is valid

What a builder was told last for each key of metadata, and the names of the fields that it was
given, decide whether there is a node. A tree of such nodes is valid all the way down, and no
statistic of a column in it is refused because of its schema.

* `BuilderCall.last?`, `Schema.get?_draft`: what a builder was told last for a key.
* `Schema.Flawed`: what is wrong with a node, apart from the checks.
* `Schema.build_fails_iff`: exactly these nodes are refused.
* `Schema.Sound`: what is promised of a node.
* `Schema.built_is_valid`: which calls build a node, and what is promised of the trees.

About `SchemaBuilder::build`, which is modelled in `Schema.Basic` and `Schema.Builder`.
-/

namespace Lakehouse

/-! ## What calls come to -/

/-- The entries that a call sets, in their order. -/
def BuilderCall.entries : BuilderCall → List (Metadata.Key × Metadata.Entry)
  | .metadata key entry => [(key, entry)]
  | .precision p => [(.timestampPrecision, .precision p)]
  | .decimal digits places =>
    [(.decimalPrecision, .number digits), (.decimalScale, .number places)]
  | _ => []

/-- The fields that a call adds. -/
def BuilderCall.added : BuilderCall → List Field
  | .field f => [f]
  | .fields fs => fs
  | _ => []

/-- The last entry that some calls set for a key. -/
def BuilderCall.last? (calls : List BuilderCall) (key : Metadata.Key) : Option Metadata.Entry :=
  (calls.flatMap entries).reverse.lookup key

theorem Metadata.get?_foldl_set (m : Metadata) (es : List (Metadata.Key × Metadata.Entry))
    (key : Metadata.Key) :
    (es.foldl (fun m (k, e) => m.set k e) m).get? key =
      (es.reverse.lookup key).or (m.get? key) := by
  induction es generalizing m with
  | nil => rfl
  | cons w es ih =>
    obtain ⟨k, e⟩ := w
    rw [List.foldl_cons, ih, List.reverse_cons, List.lookup_append, Option.or_assoc, get?_set]
    by_cases hkey : key = k
    · simp [hkey]
    · simp [hkey, List.lookup_cons, beq_eq_false_iff_ne.mpr hkey]

/-- Metadata are what their entries come to. -/
theorem Metadata.ofEntries_entries (m : Metadata) : Metadata.ofEntries m.entries = m := by
  obtain ⟨unit, places, digits, size, symbols⟩ := m
  cases unit <;> cases places <;> cases digits <;> cases size <;> cases symbols <;> rfl

namespace Schema

variable {s : Schema} {key : Metadata.Key} {n : UInt32}

/-- What a call makes of a draft. -/
theorem after_eq (draft : Schema) (c : BuilderCall) :
    (draft.after c).type = draft.type ∧
    (draft.after c).metadata = c.entries.foldl (fun m (k, e) => m.set k e) draft.metadata ∧
    (draft.after c).fields = draft.fields ++ c.added := by
  cases c <;> simp [after, addFields, setEntry, BuilderCall.entries, BuilderCall.added]

/-- What calls make of a draft. -/
theorem foldl_after (draft : Schema) (calls : List BuilderCall) :
    (calls.foldl after draft).type = draft.type ∧
    (calls.foldl after draft).metadata =
      (calls.flatMap BuilderCall.entries).foldl (fun m (k, e) => m.set k e) draft.metadata ∧
    (calls.foldl after draft).fields = draft.fields ++ calls.flatMap BuilderCall.added := by
  induction calls generalizing draft with
  | nil => simp
  | cons c calls ih =>
    obtain ⟨htype, hmetadata, hfields⟩ := ih (draft.after c)
    obtain ⟨htype', hmetadata', hfields'⟩ := draft.after_eq c
    simp only [List.foldl_cons, List.flatMap_cons, List.foldl_append]
    exact ⟨htype.trans htype', hmetadata.trans (by rw [hmetadata']),
      hfields.trans (by rw [hfields', List.append_assoc])⟩

/-- **What a draft has for a key is what was set last for it.** -/
theorem get?_draft (name : String) (type : DataType) (calls : List BuilderCall)
    (key : Metadata.Key) :
    (draft name type calls).metadata.get? key = BuilderCall.last? calls key := by
  unfold draft
  rw [(foldl_after _ calls).2.1, Metadata.get?_foldl_set]
  cases key <;> exact Option.or_none

/-! ## Flaws -/

/-- What is wrong with a node of a type, told from its entries of metadata and the names of its
fields. -/
inductive Flawed (type : DataType) (entry : Metadata.Key → Option Metadata.Entry)
    (names : List String) : Prop where
  | noDigits (decimal : type = .decimal)
      (h : ∀ n, entry .decimalPrecision ≠ some (.number n)) : Flawed type entry names
  | noPlaces (decimal : type = .decimal)
      (h : ∀ n, entry .decimalScale ≠ some (.number n)) : Flawed type entry names
  | zeroDigits (decimal : type = .decimal)
      (h : entry .decimalPrecision = some (.number 0)) : Flawed type entry names
  | tooManyPlaces {precision scale : UInt32} (decimal : type = .decimal)
      (digits : entry .decimalPrecision = some (.number precision))
      (places : entry .decimalScale = some (.number scale))
      (h : precision < scale) : Flawed type entry names
  | noUnit {e : Metadata.Entry} (instant : type.isTimestamp = true)
      (set : entry .timestampPrecision = some e) (h : ∀ p, e ≠ .precision p) :
      Flawed type entry names
  | noSize (fixed : type = .fixed)
      (h : ∀ n, entry .fixedBytesSize ≠ some (.number n)) : Flawed type entry names
  | repeatedName (record : type = .record) (h : ¬names.Nodup) : Flawed type entry names

theorem requireNumber_eq_ok :
    s.requireNumber key = .ok n ↔ s.metadata.get? key = some (.number n) := by
  unfold requireNumber
  split <;> simp_all

/-- A number is missing exactly where the entry is no number. -/
theorem requireNumber_fails_iff : (∃ p, s.requireNumber key = .error p) ↔
    ∀ n, s.metadata.get? key ≠ some (.number n) := by
  constructor
  · rintro ⟨p, hp⟩ n hn
    rw [requireNumber_eq_ok.mpr hn] at hp
    cases hp
  · intro h
    cases hnumber : s.requireNumber key with
    | error p => exact ⟨p, rfl⟩
    | ok n => exact absurd (requireNumber_eq_ok.mp hnumber) (h n)

/-- The checks of a decimal refuse one without its numbers, without digits, or with more places than
digits. -/
theorem checkDecimal_fails_iff : (∃ p, s.checkDecimal = .error p) ↔
    (∀ n, s.metadata.get? .decimalPrecision ≠ some (.number n)) ∨
    (∀ n, s.metadata.get? .decimalScale ≠ some (.number n)) ∨
    s.metadata.get? .decimalPrecision = some (.number 0) ∨
    ∃ digits places, s.metadata.get? .decimalPrecision = some (.number digits) ∧
      s.metadata.get? .decimalScale = some (.number places) ∧ digits < places := by
  simp only [← requireNumber_fails_iff, ← requireNumber_eq_ok]
  unfold checkDecimal
  cases s.requireNumber .decimalPrecision with
  | error p => simp [bind, Except.bind]
  | ok digits =>
    cases s.requireNumber .decimalScale with
    | error p => simp [bind, Except.bind]
    | ok places =>
      by_cases hzero : digits = 0
      · simp [bind, Except.bind, hzero]
      · by_cases hless : digits < places <;> simp [bind, Except.bind, hzero, hless]

theorem completeTimestamp_fails_iff : (∃ p, s.completeTimestamp = .error p) ↔
    ∃ e, s.metadata.get? .timestampPrecision = some e ∧ ∀ p, e ≠ .precision p := by
  show _ ↔ ∃ e, s.metadata.timestampPrecision = some e ∧ _
  unfold completeTimestamp
  cases s.metadata.timestampPrecision with
  | none => simp
  | some e => cases e <;> simp

theorem checkNames_fails_iff : (∃ p, s.checkNames = .error p) ↔
    s.type = .record ∧ ¬(s.fields.map (·.name)).Nodup := by
  have hnone : repeated? [] (s.fields.map (·.name)) = none ↔ (s.fields.map (·.name)).Nodup := by
    simp [repeated?_eq_none]
  rw [← hnone]
  unfold checkNames
  split
  · rename_i field htype hrepeated
    simp [htype, hrepeated]
  · rename_i hother
    simp only [reduceCtorEq, exists_false, false_iff, not_and, not_not]
    intro hrecord
    cases hrepeated : repeated? [] (s.fields.map (·.name)) with
    | none => rfl
    | some field => exact absurd hrepeated (hother field hrecord)

/-! ## What a type demands -/

theorem complete_decimal_fails_iff (htype : s.type = .decimal) :
    (∃ p, s.complete = .error p) ↔ ∃ p, s.checkDecimal = .error p := by
  unfold complete
  rw [htype]
  cases s.checkDecimal <;> simp [bind, Except.bind, pure, Except.pure]

theorem complete_fixed_fails_iff (htype : s.type = .fixed) :
    (∃ p, s.complete = .error p) ↔ ∃ p, s.requireNumber .fixedBytesSize = .error p := by
  unfold complete
  rw [htype]
  cases s.requireNumber .fixedBytesSize <;> simp [bind, Except.bind, pure, Except.pure]

theorem complete_timestamp (htype : s.type.isTimestamp = true) :
    s.complete = s.completeTimestamp := by
  unfold complete
  split
  · simp_all [DataType.isTimestamp]
  · rfl
  · rfl
  · simp_all [DataType.isTimestamp]
  · cases hs : s.type <;> simp_all [DataType.isTimestamp]

theorem complete_other (hdecimal : s.type ≠ .decimal) (htimestamp : s.type.isTimestamp ≠ true)
    (hfixed : s.type ≠ .fixed) : s.complete = .ok s := by
  unfold complete
  split
  · contradiction
  · rename_i htype
    simp [htype, DataType.isTimestamp] at htimestamp
  · rename_i htype
    simp [htype, DataType.isTimestamp] at htimestamp
  · contradiction
  · rfl

/-- What a type demands changes neither the type nor the fields. -/
theorem complete_keeps {t : Schema} (h : s.complete = .ok t) :
    t.type = s.type ∧ t.fields = s.fields := by
  have hstamp : s.completeTimestamp = .ok t → t.type = s.type ∧ t.fields = s.fields := by
    intro h
    unfold completeTimestamp at h
    split at h <;> cases h <;> exact ⟨rfl, rfl⟩
  unfold complete at h
  split at h
  · obtain ⟨_, -, h⟩ := bind_eq_ok.mp h
    cases h
    exact ⟨rfl, rfl⟩
  · exact hstamp h
  · exact hstamp h
  · obtain ⟨_, -, h⟩ := bind_eq_ok.mp h
    cases h
    exact ⟨rfl, rfl⟩
  · cases h
    exact ⟨rfl, rfl⟩

/-- A node is refused for what its type demands, or for a name that stands twice in a record. -/
theorem build_fails_cases (draft : Schema) : (∃ f, draft.build = .error f) ↔
    (∃ p, draft.complete = .error p) ∨
      draft.type = .record ∧ ¬(draft.fields.map (·.name)).Nodup := by
  unfold build assemble
  cases hcomplete : draft.complete with
  | error p => simp [bind, Except.bind, Except.mapError]
  | ok t =>
    obtain ⟨htype, hfields⟩ := complete_keeps hcomplete
    have hnames := checkNames_fails_iff (s := t)
    rw [htype, hfields] at hnames
    rw [← hnames]
    cases hcheck : t.checkNames <;>
      simp [bind, Except.bind, pure, Except.pure, Except.mapError, hcheck]

/-- **A node is refused exactly if it is flawed.** -/
theorem build_fails_iff (draft : Schema) : (∃ f, draft.build = .error f) ↔
    Flawed draft.type draft.metadata.get? (draft.fields.map (·.name)) := by
  rw [build_fails_cases]
  constructor
  · rintro (hcomplete | ⟨hrecord, hnames⟩)
    · by_cases hdecimal : draft.type = .decimal
      · rw [complete_decimal_fails_iff hdecimal, checkDecimal_fails_iff] at hcomplete
        rcases hcomplete with h | h | h | ⟨digits, places, hdigits, hplaces, h⟩
        · exact .noDigits hdecimal h
        · exact .noPlaces hdecimal h
        · exact .zeroDigits hdecimal h
        · exact .tooManyPlaces hdecimal hdigits hplaces h
      · by_cases htimestamp : draft.type.isTimestamp = true
        · rw [complete_timestamp htimestamp, completeTimestamp_fails_iff] at hcomplete
          obtain ⟨e, he, h⟩ := hcomplete
          exact .noUnit htimestamp he h
        · by_cases hfixed : draft.type = .fixed
          · rw [complete_fixed_fails_iff hfixed, requireNumber_fails_iff] at hcomplete
            exact .noSize hfixed hcomplete
          · rw [complete_other hdecimal htimestamp hfixed] at hcomplete
            obtain ⟨p, hp⟩ := hcomplete
            cases hp
    · exact .repeatedName hrecord hnames
  · intro h
    cases h with
    | noDigits hdecimal h =>
      exact .inl ((complete_decimal_fails_iff hdecimal).mpr (checkDecimal_fails_iff.mpr (.inl h)))
    | noPlaces hdecimal h =>
      exact .inl ((complete_decimal_fails_iff hdecimal).mpr
        (checkDecimal_fails_iff.mpr (.inr (.inl h))))
    | zeroDigits hdecimal h =>
      exact .inl ((complete_decimal_fails_iff hdecimal).mpr
        (checkDecimal_fails_iff.mpr (.inr (.inr (.inl h)))))
    | tooManyPlaces hdecimal hdigits hplaces h =>
      exact .inl ((complete_decimal_fails_iff hdecimal).mpr
        (checkDecimal_fails_iff.mpr (.inr (.inr (.inr ⟨_, _, hdigits, hplaces, h⟩)))))
    | noUnit htimestamp he h =>
      left
      rw [complete_timestamp htimestamp, completeTimestamp_fails_iff]
      exact ⟨_, he, h⟩
    | noSize hfixed h =>
      exact .inl ((complete_fixed_fails_iff hfixed).mpr (requireNumber_fails_iff.mpr h))
    | repeatedName hrecord h => exact .inr ⟨hrecord, h⟩

/-! ## Trees -/

/-- A node that some calls have built. -/
def IsCalled (s : Schema) : Prop := ∃ name type calls, ofCalls name type calls = .ok s

theorem foldl_after_metadata (draft : Schema) (es : List (Metadata.Key × Metadata.Entry)) :
    (es.map fun (key, entry) => BuilderCall.metadata key entry).foldl after draft =
      { draft with metadata := es.foldl (fun m (k, e) => m.set k e) draft.metadata } := by
  induction es generalizing draft with
  | nil =>
    cases draft
    rfl
  | cons w es ih => exact ih (draft.setEntry w.1 w.2)

/-- Every draft is what some calls come to. -/
theorem exists_calls (d : Schema) : ∃ calls, draft d.name d.type calls = d := by
  obtain ⟨name, type, comment, nullable, fields, metadata⟩ := d
  refine ⟨comment.toList.map .comment ++ [.nullable nullable, .fields fields] ++
    metadata.entries.map fun (key, entry) => .metadata key entry, ?_⟩
  unfold draft
  rw [List.foldl_append, foldl_after_metadata]
  have hmetadata := Metadata.ofEntries_entries metadata
  unfold Metadata.ofEntries at hmetadata
  cases comment <;> simp [after, addFields, blank, hmetadata]

/-- The nodes that calls build are those that are assembled from drafts. -/
theorem isCalled_iff : s.IsCalled ↔ s.IsBuilt := by
  constructor
  · rintro ⟨name, type, calls, h⟩
    exact ⟨_, h⟩
  · rintro ⟨d, h⟩
    obtain ⟨calls, hcalls⟩ := exists_calls d
    exact ⟨d.name, d.type, calls, by rw [ofCalls, hcalls, h]⟩

/-- What is promised of a node: a decimal has digits, and no more places than digits; a timestamp
has its unit; a column of a fixed size has its size; and no two fields of a record have one name. -/
structure Sound (s : Schema) : Prop where
  decimal : s.type = .decimal → ∃ digits places, s.decimalPrecision? = some digits ∧
    s.decimalScale? = some places ∧ digits ≠ 0 ∧ places ≤ digits
  instant : s.type.isTimestamp = true → ∃ p, s.timestampPrecision? = some p
  fixed : s.type = .fixed → ∃ size, s.fixedSize? = some size
  record : s.type = .record → (s.fields.map (·.name)).Nodup

theorem IsBuilt.sound (h : s.IsBuilt) : s.Sound where
  decimal htype := by
    obtain ⟨digits, places, hdigits, hplaces, hzero, hless⟩ := h.decimal htype
    exact ⟨digits, places, hdigits, hplaces, hzero, UInt32.not_lt.mp hless⟩
  instant htype := by
    refine h.instant ?_
    cases hs : s.type <;> simp_all [DataType.isTimestamp]
  fixed := h.fixed
  record := nodup_names_of_build h

/-- The schema of a sound column is not at fault if a statistic is refused. -/
theorem Sound.not_at_fault (h : s.Sound) (format : TableFormat) (v : Value) (f : Fault) :
    (format.statToNative v s = .error f → f.kind ≠ .invalidSchema) ∧
    (format.statFromNative v s = .error f → f.kind ≠ .invalidSchema) := by
  have hspec : s.type = .decimal → ∃ spec, s.decimalSpec = .ok spec := by
    intro htype
    obtain ⟨digits, places, hdigits, hplaces, -⟩ := h.decimal htype
    unfold decimalSpec
    rw [hdigits, hplaces]
    exact ⟨_, rfl⟩
  constructor
  · intro hf hkind
    have hmem := format.failsIn_statToNative v hspec f hf
    simp [hkind] at hmem
  · intro hf hkind
    have hmem := format.failsIn_statFromNative v hspec f hf
    simp [hkind] at hmem

theorem Everywhere.mono {P Q : Schema → Prop} (h : s.Everywhere P) (hsub : ∀ t, P t → Q t) :
    s.Everywhere Q := by
  induction h with
  | node here _ ih => exact .node (hsub _ here) ih

/-- **Every schema that is built is valid.** Calls build no node exactly if what they have set last,
and the names of the fields that they have added, make a flawed one; it is refused as an invalid
schema. In a tree whose nodes were built each node is sound, and no bound of a column is refused by
any format, in either direction, as one of an invalid schema. -/
theorem built_is_valid :
    (∀ name type calls, (∃ f, ofCalls name type calls = .error f) ↔
      Flawed type (BuilderCall.last? calls) ((calls.flatMap BuilderCall.added).map (·.name))) ∧
    (∀ name type calls f, ofCalls name type calls = .error f → f.kind = .invalidSchema) ∧
    ∀ s : Schema, s.Everywhere IsCalled →
      s.Everywhere Sound ∧
      s.Everywhere fun node => ∀ (format : TableFormat) (v : Value) (f : Fault),
        (format.statToNative v node = .error f → f.kind ≠ .invalidSchema) ∧
        (format.statFromNative v node = .error f → f.kind ≠ .invalidSchema) := by
  refine ⟨fun name type calls => ?_, fun name type calls f h => ?_, fun s hs => ?_⟩
  · have hentries : (draft name type calls).metadata.get? = BuilderCall.last? calls :=
      funext (get?_draft name type calls)
    obtain ⟨htype, -, hfields⟩ := foldl_after (blank name type) calls
    have hfields : (draft name type calls).fields = calls.flatMap BuilderCall.added := hfields
    have htype : (draft name type calls).type = type := htype
    rw [← hentries, ← hfields]
    have hiff := build_fails_iff (draft name type calls)
    rw [htype] at hiff
    exact hiff
  · obtain ⟨p, -, rfl⟩ := mapError_eq_error.mp h
    rfl
  · have hsound : s.Everywhere Sound :=
      hs.mono fun t h => (isCalled_iff.mp h).sound
    exact ⟨hsound, hsound.mono fun t h => h.not_at_fault⟩

/-- A record with a decimal, which is told its places twice, and with a timestamp, which is not told
its unit. With one name for both there is no record. -/
theorem built_is_valid_nested :
    let amount : Schema := ⟨"amount", .decimal, none, true, [],
      { Metadata.empty with
        decimalPrecision := some (.number 5), decimalScale := some (.number 2) }⟩
    let ended : Schema := ⟨"ended", .timestamp, none, false, [],
      { Metadata.empty with timestampPrecision := some (.precision .millis) }⟩
    let trips : Schema := ⟨"trips", .record, some "rides", true,
      [⟨"amount", none, amount⟩, ⟨"ended", some 2, ended⟩], .empty⟩
    ofCalls "amount" .decimal [.metadata .decimalScale (.number 7), .decimal 5 2] = .ok amount ∧
    ofCalls "ended" .timestamp [.nullable false] = .ok ended ∧
    ofCalls "trips" .record [.field ⟨"amount", none, amount⟩, .comment "rides",
      .fields [⟨"ended", some 2, ended⟩]] = .ok trips ∧
    trips.Everywhere Sound ∧
    (∃ f, TableFormat.delta.statToNative (.boolean true) amount = .error f ∧
      f.kind ≠ .invalidSchema) ∧
    ∃ f, ofCalls "trips" .record [.field ⟨"x", none, amount⟩, .field ⟨"x", some 2, ended⟩] =
      .error f ∧ f.kind = .invalidSchema := by
  intro amount ended trips
  have hamount : ofCalls "amount" .decimal
      [.metadata .decimalScale (.number 7), .decimal 5 2] = .ok amount := rfl
  have hended : ofCalls "ended" .timestamp [.nullable false] = .ok ended := rfl
  have htrips : ofCalls "trips" .record [.field ⟨"amount", none, amount⟩, .comment "rides",
      .fields [⟨"ended", some 2, ended⟩]] = .ok trips := by decide
  have hleaf : ∀ {leaf : Schema}, leaf.IsCalled → leaf.fields = [] →
      leaf.Everywhere IsCalled := fun h hfields => .node h (by simp [hfields])
  have htree : trips.Everywhere IsCalled := by
    refine .node ⟨_, _, _, htrips⟩ (List.forall_mem_cons.mpr ⟨hleaf ⟨_, _, _, hamount⟩ rfl,
      List.forall_mem_cons.mpr ⟨hleaf ⟨_, _, _, hended⟩ rfl, by simp⟩⟩)
  obtain ⟨hfails, hkinds, htrees⟩ := built_is_valid
  obtain ⟨hsound, hblameless⟩ := htrees trips htree
  have hrefused : TableFormat.delta.statToNative (.boolean true) amount =
      .error (Native.notDecimal (.boolean true)) := rfl
  obtain ⟨f, hf⟩ := (hfails "trips" .record [.field ⟨"x", none, amount⟩,
    .field ⟨"x", some 2, ended⟩]).mpr (.repeatedName rfl (by decide))
  exact ⟨hamount, hended, htrips, hsound,
    ⟨_, hrefused, ((hblameless.field List.mem_cons_self).root _ _ _).1 hrefused⟩,
    f, hf, hkinds _ _ _ _ hf⟩

end Schema

end Lakehouse
