import Lakehouse.Proofs.Config.Providers
import Lakehouse.Proofs.Except
import Lakehouse.Sync.Registry

/-!
# A registry follows its history

A registry comes about by registrations and changes of the configuration. What it answers depends on
the latest of them: on the current configuration for the format and the identifier, and on the
latest registration of that identifier in the role that is asked for. The other role may use the
identifier too.

* `Registry.Operation`, `Registry.after`: histories, and the registry that one leads to.
* `Registry.latest`: the last thing of a kind that a history tells.
* `Registry.Reflects`: a registry holds what its history tells last; `Registry.Reflects.step` and
  `Registry.reflects_after`: every operation, and so every history, keeps this up.
* `Registry.Serves`: which opening a history asks for.
* `Registry.opens_latest`: exactly these openings are made, all else is refused, and the identifiers
  are listed in the order of their first registration.

About `ProviderRegistry`, which is modelled in `Sync.Registry`.
-/

namespace Lakehouse

namespace Registry

/-- What can be done to a registry. -/
inductive Operation (σ τ : Type) where
  | registerSource (id : String) (provider : σ)
  | registerTarget (id : String) (provider : τ)
  | configure (providers : ProviderConfig) (storage : Option String)

variable {σ τ π α : Type}

namespace Operation

/-- A registry after an operation. -/
def apply (r : Registry σ τ) : Operation σ τ → Registry σ τ
  | registerSource id provider => r.registerSource id provider
  | registerTarget id provider => r.registerTarget id provider
  | configure providers storage => r.configure providers storage

/-- The identifier that an operation registers, in either role. -/
def id? : Operation σ τ → Option String
  | registerSource id _ | registerTarget id _ => some id
  | configure _ _ => none

/-- The source that an operation registers under an identifier. -/
def source? (id : String) : Operation σ τ → Option σ
  | registerSource k provider => if id = k then some provider else none
  | _ => none

/-- The target that an operation registers under an identifier. -/
def target? (id : String) : Operation σ τ → Option τ
  | registerTarget k provider => if id = k then some provider else none
  | _ => none

/-- The configuration that an operation sets, with its storage. -/
def settings? : Operation σ τ → Option (ProviderConfig × Option String)
  | configure providers storage => some (providers, storage)
  | _ => none

end Operation

/-! ## Histories -/

/-- The registry that a history leads to. -/
def after (ops : List (Operation σ τ)) : Registry σ τ := ops.foldl Operation.apply empty

/-- The last thing of a kind that a history tells. -/
def latest (told : Operation σ τ → Option α) (ops : List (Operation σ τ)) : Option α :=
  (ops.filterMap told).getLast?

/-- The configuration that a history leads to, with its storage. -/
def current (ops : List (Operation σ τ)) : ProviderConfig × Option String :=
  (latest Operation.settings? ops).getD (.default, none)

/-- The identifiers that a history registers, one by one. -/
def mentioned (ops : List (Operation σ τ)) : List String := ops.filterMap Operation.id?

/-- Names stand once each, in the order in which they first occur in a list. -/
structure FirstIn (names list : List String) : Prop where
  mem_iff : ∀ name, name ∈ names ↔ name ∈ list
  ordered : names.Pairwise fun a b => list.idxOf a < list.idxOf b

variable {r : Registry σ τ} {ops : List (Operation σ τ)} {names list : List String} {id : String}

/-- What is told last counts instead of all that was told before. -/
theorem latest_concat (told : Operation σ τ → Option α) (ops : List (Operation σ τ))
    (op : Operation σ τ) : latest told (ops ++ [op]) = (told op).or (latest told ops) := by
  unfold latest
  rw [List.filterMap_append, List.getLast?_append]
  cases h : told op <;> simp [h]

/-- A name is noted behind the others, unless it is among them. -/
theorem FirstIn.note (h : FirstIn names list) (id : String) :
    FirstIn (note names id) (list ++ [id]) := by
  have hkept : names.Pairwise fun a b => (list ++ [id]).idxOf a < (list ++ [id]).idxOf b := by
    refine h.ordered.imp_of_mem fun ha hb hless => ?_
    rwa [List.idxOf_append_of_mem ((h.mem_iff _).mp ha),
      List.idxOf_append_of_mem ((h.mem_iff _).mp hb)]
  unfold Registry.note
  by_cases hid : id ∈ names
  · rw [if_pos hid]
    refine ⟨fun name => ?_, hkept⟩
    rw [List.mem_append, List.mem_singleton, h.mem_iff]
    constructor
    · exact .inl
    · rintro (hname | rfl)
      · exact hname
      · exact (h.mem_iff name).mp hid
  · rw [if_neg hid]
    refine ⟨fun name => by simp [h.mem_iff], List.pairwise_append.mpr
      ⟨hkept, List.pairwise_singleton _ _, fun a ha b hb => ?_⟩⟩
    have hnew : id ∉ list := fun hmem => hid ((h.mem_iff id).mpr hmem)
    have ha := (h.mem_iff a).mp ha
    rw [List.mem_singleton.mp hb, List.idxOf_append_of_mem ha,
      List.idxOf_append_of_notMem hnew]
    exact Nat.lt_add_right _ (List.idxOf_lt_length_of_mem ha)

/-- **A registry holds what its history tells last.** -/
structure Reflects (r : Registry σ τ) (ops : List (Operation σ τ)) : Prop where
  source : ∀ id, r.sources.get? id = latest (Operation.source? id) ops
  target : ∀ id, r.targets.get? id = latest (Operation.target? id) ops
  settings : (r.providers, r.storage) = current ops
  registered : FirstIn r.registered (mentioned ops)

theorem mentioned_concat (ops : List (Operation σ τ)) (op : Operation σ τ) :
    mentioned (ops ++ [op]) = mentioned ops ++ op.id?.toList := by
  unfold mentioned
  rw [List.filterMap_append]
  cases h : op.id? <;> simp [h]

/-- **Every operation keeps the registry up with its history.** -/
theorem Reflects.step (h : r.Reflects ops) (op : Operation σ τ) :
    (op.apply r).Reflects (ops ++ [op]) := by
  cases op with
  | registerSource k provider =>
    refine ⟨fun id => ?_, fun id => ?_, ?_, ?_⟩
    · rw [latest_concat, ← h.source]
      simp only [Operation.apply, registerSource, Dictionary.get?_insert, Operation.source?]
      split <;> rfl
    · rw [latest_concat, ← h.target]
      rfl
    · unfold current
      rw [latest_concat]
      exact h.settings
    · rw [mentioned_concat]
      exact h.registered.note k
  | registerTarget k provider =>
    refine ⟨fun id => ?_, fun id => ?_, ?_, ?_⟩
    · rw [latest_concat, ← h.source]
      rfl
    · rw [latest_concat, ← h.target]
      simp only [Operation.apply, registerTarget, Dictionary.get?_insert, Operation.target?]
      split <;> rfl
    · unfold current
      rw [latest_concat]
      exact h.settings
    · rw [mentioned_concat]
      exact h.registered.note k
  | configure providers storage =>
    refine ⟨fun id => ?_, fun id => ?_, ?_, ?_⟩
    · rw [latest_concat, ← h.source]
      rfl
    · rw [latest_concat, ← h.target]
      rfl
    · unfold current
      rw [latest_concat]
      rfl
    · rw [mentioned_concat, show (Operation.configure providers storage).id?.toList = [] from rfl,
        List.append_nil]
      exact h.registered

theorem Reflects.foldl (h : r.Reflects ops) (more : List (Operation σ τ)) :
    (more.foldl Operation.apply r).Reflects (ops ++ more) := by
  induction more generalizing r ops with
  | nil => rwa [List.append_nil]
  | cons op more ih =>
    have hrest := ih (h.step op)
    rwa [List.append_assoc] at hrest

/-- **A registry reflects its history.** -/
theorem reflects_after (ops : List (Operation σ τ)) : (after ops).Reflects ops := by
  have hempty : (empty : Registry σ τ).Reflects [] :=
    ⟨fun _ => rfl, fun _ => rfl, rfl, fun _ => Iff.rfl, List.Pairwise.nil⟩
  exact hempty.foldl ops

/-! ## Openings -/

variable {role : ProviderRole} {registered : Dictionary π}
  {table : TableDescriptor} {o : Opening π} {fault : Fault}

theorem resolve_eq_ok_iff {format id : String} {context : ProviderContext} :
    r.resolve format role = .ok (id, context) ↔ ∃ e, r.providers.entry format = .ok e ∧
      e.provider? role = some id ∧ context = ⟨r.storage, e.settings⟩ := by
  unfold resolve
  rw [bind_eq_ok]
  refine exists_congr fun e => and_congr_right fun _ => ?_
  cases e.provider? role with
  | none => simp
  | some k => simp [eq_comm]

/-- The provider of a table is the one that is registered under the identifier that is configured in
the role for the table's format. -/
theorem find_eq_ok_iff : r.find role registered table = .ok o ↔
    ∃ e, r.providers.entry table.format = .ok e ∧ e.provider? role = some o.id ∧
      registered.get? o.id = some o.provider ∧ o.table = table ∧
      o.context = ⟨r.storage, e.settings⟩ := by
  unfold find
  rw [bind_eq_ok]
  constructor
  · rintro ⟨⟨id, context⟩, hresolve, h⟩
    obtain ⟨e, hentry, hid, rfl⟩ := resolve_eq_ok_iff.mp hresolve
    simp only at h
    split at h
    · rename_i provider hprovider
      cases h
      exact ⟨e, hentry, hid, hprovider, rfl, rfl⟩
    · cases h
  · rintro ⟨e, hentry, hid, hprovider, htable, hcontext⟩
    refine ⟨(o.id, o.context), resolve_eq_ok_iff.mpr ⟨e, hentry, hid, hcontext⟩, ?_⟩
    simp only [hprovider, ← htable]

/-- Whatever is missing, the configuration is at fault. -/
theorem kind_of_find (h : r.find role registered table = .error fault) :
    fault.kind = .invalidConfiguration := by
  unfold find at h
  rcases bind_eq_error.mp h with h | ⟨⟨id, context⟩, -, h⟩
  · unfold resolve at h
    rcases bind_eq_error.mp h with h | ⟨e, -, h⟩
    · unfold ProviderConfig.entry at h
      split at h <;> cases h
      rfl
    · split at h <;> cases h
      rfl
  · simp only at h
    split at h <;> cases h
    rfl

/-- The opening that is asked for: of the provider that was registered last under the identifier
that the configuration names in a role for the format of the table. It is handed the table, the
storage and the settings for the format. -/
def Serves (settings : ProviderConfig × Option String) (role : ProviderRole)
    (provider? : String → Option π) (table : TableDescriptor) (o : Opening π) : Prop :=
  ∃ name entry, Text.sameLetters name table.format = true ∧
    settings.1.formats.get? name = some entry ∧ entry.provider? role = some o.id ∧
    provider? o.id = some o.provider ∧ o.table = table ∧ o.context = ⟨settings.2, entry.settings⟩

theorem find_eq_ok_iff_serves (hdistinct : r.providers.Distinct) :
    r.find role registered table = .ok o ↔
      Serves (r.providers, r.storage) role registered.get? table o := by
  simp only [find_eq_ok_iff, hdistinct.entry_eq_ok, Serves, exists_and_left]
  constructor
  · rintro ⟨e, ⟨n, hname, hget⟩, h⟩
    exact ⟨n, hname, e, hget, h⟩
  · rintro ⟨n, hname, e, hget, h⟩
    exact ⟨e, ⟨n, hname, hget⟩, h⟩

/-- What is not asked for is refused. -/
theorem find_fails (h : ∀ o, r.find role registered table ≠ .ok o) :
    ∃ f, r.find role registered table = .error f ∧ f.kind = .invalidConfiguration := by
  cases hfind : r.find role registered table with
  | ok o => exact absurd hfind (h o)
  | error f => exact ⟨f, rfl, kind_of_find hfind⟩

variable {ops : List (Operation σ τ)}

/-- The current configuration is one of those that were set, or the default one. -/
theorem distinct_current
    (h : ∀ c storage, Operation.configure c storage ∈ ops → c.Distinct) :
    (current ops).1.Distinct := by
  unfold current latest
  cases hlast : (ops.filterMap Operation.settings?).getLast? with
  | none => exact ProviderConfig.distinct_default
  | some settings =>
    obtain ⟨op, hop, hsettings⟩ := List.mem_filterMap.mp (List.mem_of_getLast? hlast)
    cases op with
    | registerSource | registerTarget => cases hsettings
    | configure c storage =>
      cases hsettings
      exact h c storage hop

/-- **A registry follows the latest registrations and the current configuration.** After any history
in whose configurations no two formats differ in case only, a table is opened as a source exactly as
`Serves` says of the sources that were registered last, by one call of that provider, and likewise
as a target; whatever is missing for that, there is no opening and the configuration is at fault.
The identifiers are listed once each, in the order of their first registration. -/
theorem opens_latest (ops : List (Operation σ τ))
    (h : ∀ c storage, Operation.configure c storage ∈ ops → c.Distinct)
    (table : TableDescriptor) :
    let sourceOf (id : String) := latest (Operation.source? id) ops
    let targetOf (id : String) := latest (Operation.target? id) ops
    (∀ o, (after ops).source table = .ok o ↔ Serves (current ops) .source sourceOf table o) ∧
    ((∀ o, ¬Serves (current ops) .source sourceOf table o) →
      ∃ f, (after ops).source table = .error f ∧ f.kind = .invalidConfiguration) ∧
    (∀ o, (after ops).target table = .ok o ↔ Serves (current ops) .target targetOf table o) ∧
    ((∀ o, ¬Serves (current ops) .target targetOf table o) →
      ∃ f, (after ops).target table = .error f ∧ f.kind = .invalidConfiguration) ∧
    FirstIn (after ops).registered (mentioned ops) := by
  intro sourceOf targetOf
  have hreflects := reflects_after ops
  have hdistinct := distinct_current h
  have hsource : (after ops).sources.get? = sourceOf := funext hreflects.source
  have htarget : (after ops).targets.get? = targetOf := funext hreflects.target
  rw [← hreflects.settings, ← hsource, ← htarget] at *
  exact ⟨fun o => find_eq_ok_iff_serves hdistinct,
    fun hnone => find_fails fun o => mt (find_eq_ok_iff_serves hdistinct).mp (hnone o),
    fun o => find_eq_ok_iff_serves hdistinct,
    fun hnone => find_fails fun o => mt (find_eq_ok_iff_serves hdistinct).mp (hnone o),
    hreflects.registered⟩

/-- The settings of a format. -/
def fast : Dictionary String := ⟨[("k", "v")], by decide⟩

/-- A configuration, and the one that takes its place. -/
def oldConfig : ProviderConfig := ⟨⟨[("HUDI", ⟨some "b", some "a", .empty⟩)], by decide⟩⟩

@[inherit_doc oldConfig]
def newConfig : ProviderConfig := ⟨⟨[("Hudi", ⟨some "a", some "b", fast⟩)], by decide⟩⟩

/-- An identifier that both roles use and that is registered a second time as a source, and an
identifier that has no target after a change of the configuration. -/
def sharedHistory : List (Operation Nat Nat) :=
  [.registerSource "a" 1, .configure oldConfig (some "/old"), .registerTarget "a" 2,
    .registerSource "b" 3, .registerSource "a" 4, .configure newConfig (some "/new")]

/-- A table of the format that both configurations have, in another spelling. -/
def trips : TableDescriptor := .plain "trips" "/data/trips" "HUDI"

theorem distinct_sharedHistory (c : ProviderConfig) (storage : Option String)
    (hc : Operation.configure c storage ∈ sharedHistory) : c.Distinct := by
  simp only [sharedHistory, List.mem_cons, reduceCtorEq, Operation.configure.injEq, false_or,
    List.not_mem_nil, or_false] at hc
  rcases hc with ⟨rfl, -⟩ | ⟨rfl, -⟩ <;>
    simp [ProviderConfig.Distinct, oldConfig, newConfig, Dictionary.names]

/-- The source is the second one of its identifier, the target is missing, and each identifier is
listed once. -/
theorem opens_latest_shared :
    (after sharedHistory).source trips = .ok ⟨"a", 4, trips, ⟨some "/new", fast⟩⟩ ∧
    (∃ f, (after sharedHistory).target trips = .error f ∧ f.kind = .invalidConfiguration) ∧
    FirstIn (after sharedHistory).registered (mentioned sharedHistory) := by
  have hupper : Text.upper "Hudi" = "HUDI" ∧ Text.upper "HUDI" = "HUDI" := by decide +kernel
  have hletters : Text.sameLetters "Hudi" "HUDI" = true :=
    Text.sameLetters_iff.mpr (hupper.1.trans hupper.2.symm)
  have hcurrent : current sharedHistory = (newConfig, some "/new") := rfl
  have hlatest : latest (Operation.source? "a") sharedHistory = some 4 := by
    simp [latest, sharedHistory, List.filterMap_cons, Operation.source?]
  have hnone : latest (Operation.target? "b") sharedHistory = none := by
    simp [latest, sharedHistory, List.filterMap_cons, Operation.target?]
  have hentry : newConfig.formats.get? "Hudi" = some ⟨some "a", some "b", fast⟩ := by
    simp [newConfig, Dictionary.get?, Dictionary.lookup]
  have hserves : Serves (current sharedHistory) .source
      (fun id => latest (Operation.source? id) sharedHistory) trips
      ⟨"a", 4, trips, ⟨some "/new", fast⟩⟩ := by
    rw [hcurrent]
    exact ⟨"Hudi", _, hletters, hentry, rfl, hlatest, rfl, rfl⟩
  have hrefused : ∀ o, ¬Serves (current sharedHistory) .target
      (fun id => latest (Operation.target? id) sharedHistory) trips o := by
    rw [hcurrent]
    rintro o ⟨name, entry, -, hget, hid, hprovider, -⟩
    have hname := Dictionary.get?_eq_some_iff.mp hget
    obtain ⟨-, rfl⟩ : name = "Hudi" ∧ entry = ⟨some "a", some "b", fast⟩ := by
      simpa [newConfig] using hname
    have hb : o.id = "b" := (Option.some.inj hid).symm
    rw [hb] at hprovider
    cases hnone.symm.trans hprovider
  obtain ⟨hsource, -, -, htarget, hregistered⟩ :=
    opens_latest sharedHistory distinct_sharedHistory trips
  exact ⟨(hsource _).mpr hserves, htarget hrefused, hregistered⟩

end Registry

end Lakehouse
