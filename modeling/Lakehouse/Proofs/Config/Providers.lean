import Lakehouse.Config.Providers
import Lakehouse.Proofs.Dictionary
import Mathlib.Data.List.Basic

/-!
# Overlays of provider configurations

Formats are told apart without regard to case, but the dictionary of a configuration tells its names
apart by case as well. A configuration in which no two names differ in case only has one slot for
each format, and an overlay fills the slots one by one: nothing that is laid over a slot touches
another one.

* `ProviderEntry.merge_assoc`, `ProviderEntry.merge_self`: overlays of entries.
* `ProviderConfig.Distinct`: no two names differ in case only.
* `ProviderConfig.slot`: what a configuration has for a format, and under which name.
* `ProviderConfig.Distinct.slot_merge`: the slots of an overlay.
* `ProviderConfig.merge_is_overlay`: what an overlay keeps, what it gives for each format, and its
  laws.

About `ConvertersConfig::merge` and `ConvertersConfig::entry`, which are modelled in
`Config.Providers`.
-/

namespace Lakehouse

/-! ## Overlays of entries -/

namespace ProviderEntry

variable (e f g : ProviderEntry)

theorem merge_eq : e.merge f =
    ⟨f.source.or e.source, f.target.or e.target, e.settings.overlay f.settings⟩ := by
  simp only [merge, Option.orElse_eq_orElse, Option.orElse_eq_or]

theorem merge_assoc : (e.merge f).merge g = e.merge (f.merge g) := by
  simp only [merge_eq, Option.or_assoc, Dictionary.overlay_assoc]

theorem merge_self : e.merge e = e := by
  simp only [merge_eq, Option.or_self, Dictionary.overlay_self]

theorem empty_merge : empty.merge e = e := by
  simp only [merge_eq, empty, Option.or_none, Dictionary.empty_overlay]

end ProviderEntry

namespace ProviderConfig

variable {c d o : ProviderConfig} {f k n : String} {e : ProviderEntry}

/-! ## Slots -/

/-- No two names differ in case only. -/
def Distinct (c : ProviderConfig) : Prop :=
  ∀ a ∈ c.formats.names, ∀ b ∈ c.formats.names, Text.sameLetters a b = true → a = b

/-- What is configured for a format, with the name under which it is. -/
def slot (c : ProviderConfig) (f : String) : Option (String × ProviderEntry) :=
  c.formats.find? fun known => Text.sameLetters known f

theorem entry_eq_ok_iff : c.entry f = .ok e ↔ (c.slot f).map Prod.snd = some e := by
  unfold entry slot
  cases c.formats.find? fun known => Text.sameLetters known f <;> simp

theorem toOption_entry (c : ProviderConfig) (f : String) :
    (c.entry f).toOption = (c.slot f).map Prod.snd := by
  unfold entry slot
  cases c.formats.find? fun known => Text.sameLetters known f <;> rfl

theorem mem_entries_of_slot {w : String × ProviderEntry} (h : c.slot f = some w) :
    Text.sameLetters w.1 f = true ∧ w ∈ c.formats.entries := by
  let p (w : String × ProviderEntry) := Text.sameLetters w.1 f
  have hfind : c.formats.entries.find? p = some w := h
  exact ⟨List.find?_some (p := p) hfind, List.mem_of_find?_eq_some hfind⟩

/-- Some name agrees with a format but for case. -/
def Configures (c : ProviderConfig) (f : String) : Prop :=
  ∃ n ∈ c.formats.names, Text.sameLetters n f = true

theorem isSome_slot_iff : (c.slot f).isSome = true ↔ c.Configures f := by
  unfold slot Configures Dictionary.find? Dictionary.names
  simp [List.find?_isSome]

/-- Where no two names differ in case only, the slot of a format has the one name that agrees with
it. -/
theorem Distinct.slot_eq_some_iff (h : c.Distinct) : c.slot f = some (n, e) ↔
    Text.sameLetters n f = true ∧ c.formats.get? n = some e := by
  constructor
  · intro hslot
    obtain ⟨hsame, hmem⟩ := mem_entries_of_slot hslot
    exact ⟨hsame, Dictionary.get?_eq_some_iff.mpr hmem⟩
  · rintro ⟨hsame, hget⟩
    have hn : n ∈ c.formats.names := Dictionary.mem_names_iff.mpr ⟨e, hget⟩
    obtain ⟨⟨m, e'⟩, hslot⟩ := Option.isSome_iff_exists.mp (isSome_slot_iff.mpr ⟨n, hn, hsame⟩)
    obtain ⟨hsame', hmem⟩ := mem_entries_of_slot hslot
    have hget' : c.formats.get? m = some e' := Dictionary.get?_eq_some_iff.mpr hmem
    have hname : m = n := h m (Dictionary.mem_names_iff.mpr ⟨e', hget'⟩) n hn
      (Text.sameLetters_iff.mpr ((Text.sameLetters_iff.mp hsame').trans
        (Text.sameLetters_iff.mp hsame).symm))
    subst hname
    rw [hslot, ← Option.some.inj (hget'.symm.trans hget)]

/-- Where no two names differ in case only, what is configured for a format is under the one name
that agrees with it. -/
theorem Distinct.entry_eq_ok (h : c.Distinct) : c.entry f = .ok e ↔
    ∃ n, Text.sameLetters n f = true ∧ c.formats.get? n = some e := by
  rw [entry_eq_ok_iff, Option.map_eq_some_iff]
  constructor
  · rintro ⟨⟨n, e⟩, hslot, rfl⟩
    exact ⟨n, h.slot_eq_some_iff.mp hslot⟩
  · rintro ⟨n, hn⟩
    exact ⟨(n, e), h.slot_eq_some_iff.mpr hn, rfl⟩

/-- No two of the formats that come with the program differ in case only. -/
theorem distinct_default : default.Distinct := by
  have hnames : ∀ n ∈ default.formats.names, n ∈ ["ICEBERG", "DELTA", "HUDI"] := by
    intro n hn
    simp only [default, Dictionary.ofList, List.foldl_cons, List.foldl_nil,
      Dictionary.mem_names_insert] at hn
    simpa [Dictionary.names, Dictionary.empty] using hn
  have hupper : ∀ n ∈ ["ICEBERG", "DELTA", "HUDI"], Text.upper n = n := by decide +kernel
  intro a ha b hb hsame
  rw [← hupper a (hnames a ha), ← hupper b (hnames b hb)]
  exact Text.sameLetters_iff.mp hsame

/-- Configurations without names that differ in case only are told apart by their slots. -/
theorem Distinct.eq_of_slot (hc : c.Distinct) (hd : d.Distinct) (h : ∀ f, c.slot f = d.slot f) :
    c = d := by
  refine congrArg ProviderConfig.mk (Dictionary.eq_of_get? fun n => Option.ext fun e => ?_)
  have hself : ∀ {c : ProviderConfig}, c.Distinct →
      (c.formats.get? n = some e ↔ c.slot n = some (n, e)) := fun h => by
    rw [h.slot_eq_some_iff, Text.sameLetters_refl]
    simp
  rw [hself hc, hself hd, h n]

/-- The slot of a format does not depend on the case in which the format is written. -/
theorem slot_congr (h : Text.sameLetters k f = true) : c.slot k = c.slot f := by
  unfold slot Text.sameLetters
  rw [Text.sameLetters_iff.mp h]

/-! ## One entry -/

theorem nameFor_eq (c : ProviderConfig) (k : String) :
    c.nameFor k = ((c.slot k).map Prod.fst).getD k := rfl

/-- A format is configured under a name that agrees with it but for case. -/
theorem sameLetters_nameFor (c : ProviderConfig) (k : String) :
    Text.sameLetters (c.nameFor k) k = true := by
  rw [nameFor_eq]
  cases hslot : c.slot k with
  | none => exact Text.sameLetters_refl k
  | some w => exact (mem_entries_of_slot hslot).1

theorem Distinct.nameFor_eq (h : c.Distinct) (hn : n ∈ c.formats.names)
    (hsame : Text.sameLetters n k = true) : c.nameFor k = n := by
  obtain ⟨e, he⟩ := Dictionary.mem_names_iff.mp hn
  rw [ProviderConfig.nameFor_eq, h.slot_eq_some_iff.mpr ⟨hsame, he⟩]
  rfl

theorem mem_names_mergeEntry :
    n ∈ (c.mergeEntry k e).formats.names ↔ n = c.nameFor k ∨ n ∈ c.formats.names :=
  Dictionary.mem_names_insert

/-- **Laying an entry over a configuration brings no two names that differ in case only.** -/
theorem Distinct.mergeEntry (h : c.Distinct) (k : String) (e : ProviderEntry) :
    (c.mergeEntry k e).Distinct := by
  -- an old name that agrees with the one of the entry is that name
  have hold : ∀ n ∈ c.formats.names, Text.sameLetters n (c.nameFor k) = true →
      n = c.nameFor k := fun n hn hsame =>
    (h.nameFor_eq hn (Text.sameLetters_iff.mpr ((Text.sameLetters_iff.mp hsame).trans
      (Text.sameLetters_iff.mp (c.sameLetters_nameFor k))))).symm
  intro a ha b hb hsame
  rcases mem_names_mergeEntry.mp ha with rfl | ha <;>
    rcases mem_names_mergeEntry.mp hb with rfl | hb
  · rfl
  · exact (hold b hb (by rw [Text.sameLetters_comm, hsame])).symm
  · exact hold a ha hsame
  · exact h a ha b hb hsame

/-- One slot over another: the name of the lower one stays. -/
def atop (lower upper : String × ProviderEntry) : String × ProviderEntry :=
  (lower.1, lower.2.merge upper.2)

instance : Std.Associative atop :=
  ⟨fun a b g => congrArg (Prod.mk a.1) (a.2.merge_assoc b.2 g.2)⟩

instance : Std.IdempotentOp atop :=
  ⟨fun a => congrArg (Prod.mk a.1) a.2.merge_self⟩

/-- **An entry is laid over the slot of its format, and over no other.** -/
theorem Distinct.slot_mergeEntry (h : c.Distinct) (k : String) (e : ProviderEntry) (f : String) :
    (c.mergeEntry k e).slot f =
      if Text.sameLetters k f = true then (c.slot f).merge atop (some (k, e)) else c.slot f := by
  have hget : ∀ n, (c.mergeEntry k e).formats.get? n = if n = c.nameFor k then
      some (((c.formats.get? (c.nameFor k)).getD .empty).merge e) else c.formats.get? n :=
    fun n => Dictionary.get?_insert _ _ _ n
  have hname := Text.sameLetters_iff.mp (c.sameLetters_nameFor k)
  by_cases hsame : Text.sameLetters k f = true
  · rw [if_pos hsame, ← slot_congr hsame, ← slot_congr hsame,
      (h.mergeEntry k e).slot_eq_some_iff.mpr
        ⟨c.sameLetters_nameFor k, (hget (c.nameFor k)).trans (if_pos rfl)⟩,
      ProviderConfig.nameFor_eq]
    cases hslot : c.slot k with
    | none =>
      have hnone : c.formats.get? k = none := by
        rw [Option.eq_none_iff_forall_ne_some]
        intro old hold
        rw [h.slot_eq_some_iff.mpr ⟨Text.sameLetters_refl k, hold⟩] at hslot
        cases hslot
      simp [hnone, ProviderEntry.empty_merge]
    | some w =>
      have hold := (h.slot_eq_some_iff.mp hslot).2
      simp [hold, atop]
  · rw [if_neg hsame]
    refine Option.ext fun ⟨n, e'⟩ => ?_
    rw [(h.mergeEntry k e).slot_eq_some_iff, h.slot_eq_some_iff, hget n]
    refine and_congr_right fun hn => ?_
    have hne : n ≠ c.nameFor k := by
      rintro rfl
      exact hsame (Text.sameLetters_iff.mpr (hname.symm.trans (Text.sameLetters_iff.mp hn)))
    rw [if_neg hne]

/-! ## All entries -/

/-- What a configuration lays over the slot of a format, in the order of the names. -/
def matching (o : ProviderConfig) (f : String) : List (String × ProviderEntry) :=
  o.formats.entries.filter fun w => Text.sameLetters w.1 f

/-- What a configuration lays over the slot of a format, all in all. -/
def layers (o : ProviderConfig) (f : String) : Option (String × ProviderEntry) :=
  ((o.matching f).map some).foldl (Option.merge atop) none

theorem Distinct.foldl_mergeEntry (h : c.Distinct) (ws : List (String × ProviderEntry))
    (f : String) :
    let merged := ws.foldl (fun c (format, e) => c.mergeEntry format e) c
    merged.Distinct ∧ merged.slot f =
      ((ws.filter fun w => Text.sameLetters w.1 f).map some).foldl (Option.merge atop)
        (c.slot f) := by
  induction ws generalizing c with
  | nil => exact ⟨h, rfl⟩
  | cons w ws ih =>
    obtain ⟨k, e⟩ := w
    obtain ⟨hdistinct, hslot⟩ := ih (h.mergeEntry k e)
    refine ⟨hdistinct, hslot.trans ?_⟩
    rw [h.slot_mergeEntry, List.filter_cons]
    by_cases hsame : Text.sameLetters k f = true
    · rw [if_pos hsame, if_pos hsame, List.map_cons, List.foldl_cons]
    · rw [if_neg hsame, if_neg hsame]

theorem Distinct.merge (h : c.Distinct) (o : ProviderConfig) : (c.merge o).Distinct :=
  (h.foldl_mergeEntry o.formats.entries "").1

/-- The slot of a format in an overlay, one layer after another. -/
theorem Distinct.slot_merge_foldl (h : c.Distinct) (o : ProviderConfig) (f : String) :
    (c.merge o).slot f = ((o.matching f).map some).foldl (Option.merge atop) (c.slot f) :=
  (h.foldl_mergeEntry o.formats.entries f).2

/-- **The slots of an overlay**: what is laid over a slot is laid over it all in all. -/
theorem Distinct.slot_merge (h : c.Distinct) (o : ProviderConfig) (f : String) :
    (c.merge o).slot f = (c.slot f).merge atop (o.layers f) := by
  have hassoc := @List.foldl_assoc _ (Option.merge atop) _ ((o.matching f).map some) (c.slot f) none
  rw [Option.merge_none_right] at hassoc
  rw [h.slot_merge_foldl, hassoc]
  rfl

/-- A configuration without names that differ in case only lays its own slots over others. -/
theorem Distinct.layers_eq (h : o.Distinct) (f : String) : o.layers f = o.slot f := by
  have hslot : o.slot f = (o.matching f).head? := List.head?_filter.symm
  cases hmatching : o.matching f with
  | nil =>
    rw [hslot, layers, hmatching]
    rfl
  | cons w rest =>
    rw [hmatching] at hslot
    have hsame : ∀ x ∈ rest, x = w := by
      intro x hx
      have hmem : x ∈ o.matching f := hmatching ▸ List.mem_cons_of_mem w hx
      obtain ⟨hentry, hname⟩ := List.mem_filter.mp hmem
      have hx := h.slot_eq_some_iff.mpr ⟨hname, Dictionary.get?_eq_some_iff.mpr hentry⟩
      exact Option.some.inj (hx.symm.trans hslot)
    rw [hslot, layers, hmatching]
    show (rest.map some).foldl (Option.merge atop) (some w) = some w
    clear hmatching hslot
    induction rest with
    | nil => rfl
    | cons x rest ih =>
      obtain ⟨rfl, hrest⟩ := List.forall_mem_cons.mp hsame
      have hself : (some x).merge atop (some x) = some x := Std.IdempotentOp.idempotent (some x)
      rw [List.map_cons, List.foldl_cons, hself]
      exact ih hrest

/-- What some slots come to that are laid over one: they are laid over its entry one by one, or over
nothing. -/
theorem map_foldl_atop (ws : List (String × ProviderEntry)) (s : Option (String × ProviderEntry)) :
    ((ws.map some).foldl (Option.merge atop) s).map Prod.snd =
      if s = none ∧ ws = [] then none
      else some ((ws.map Prod.snd).foldl ProviderEntry.merge ((s.map Prod.snd).getD .empty)) := by
  induction ws generalizing s with
  | nil => cases s <;> simp
  | cons w ws ih =>
    rw [List.map_cons, List.foldl_cons, ih, List.map_cons, List.foldl_cons]
    cases s with
    | none => simp [ProviderEntry.empty_merge]
    | some old => simp [atop]

/-! ## Laws -/

/-- A name is kept with its spelling. -/
theorem mem_names_merge (o : ProviderConfig) (hn : n ∈ c.formats.names) :
    n ∈ (c.merge o).formats.names := by
  unfold merge
  generalize o.formats.entries = ws
  induction ws generalizing c with
  | nil => exact hn
  | cons w ws ih => exact ih (mem_names_mergeEntry.mpr (.inr hn))

theorem matching_eq_nil_iff : o.matching f = [] ↔ ¬o.Configures f := by
  unfold matching Configures Dictionary.names
  simp [List.filter_eq_nil_iff]

/-- **What an overlay gives for a format**: the layers of the upper configuration, one after
another, over what the lower one has for it, or over nothing. -/
theorem Distinct.entry_merge (h : c.Distinct) (o : ProviderConfig) (f : String)
    (e : ProviderEntry) : (c.merge o).entry f = .ok e ↔ (c.Configures f ∨ o.Configures f) ∧
      e = ((o.matching f).map Prod.snd).foldl ProviderEntry.merge
        ((c.entry f).toOption.getD .empty) := by
  have hnone : c.slot f = none ∧ o.matching f = [] ↔ ¬(c.Configures f ∨ o.Configures f) := by
    rw [matching_eq_nil_iff, not_or, ← isSome_slot_iff (c := c), Bool.not_eq_true,
      Option.isSome_eq_false_iff, Option.isNone_iff_eq_none]
  rw [entry_eq_ok_iff, toOption_entry, h.slot_merge_foldl, map_foldl_atop]
  by_cases hfound : c.slot f = none ∧ o.matching f = []
  · simp [if_pos hfound, hnone.mp hfound]
  · rw [if_neg hfound, Option.some.injEq, eq_comm]
    exact (and_iff_right (not_not.mp (hfound ∘ hnone.mpr))).symm

theorem Distinct.merge_merge_self (h : c.Distinct) (o : ProviderConfig) :
    (c.merge o).merge o = c.merge o := by
  refine ((h.merge o).merge o).eq_of_slot (h.merge o) fun f => ?_
  have hassoc : ((c.slot f).merge atop (o.layers f)).merge atop (o.layers f) =
      (c.slot f).merge atop ((o.layers f).merge atop (o.layers f)) :=
    Std.Associative.assoc _ _ _
  have hself : (o.layers f).merge atop (o.layers f) = o.layers f := Std.IdempotentOp.idempotent _
  rw [(h.merge o).slot_merge, h.slot_merge, hassoc, hself]

theorem Distinct.merge_assoc (hc : c.Distinct) (ho : o.Distinct) (p : ProviderConfig) :
    c.merge (o.merge p) = (c.merge o).merge p := by
  refine (hc.merge (o.merge p)).eq_of_slot ((hc.merge o).merge p) fun f => ?_
  have hassoc : ((c.slot f).merge atop (o.slot f)).merge atop (p.layers f) =
      (c.slot f).merge atop ((o.slot f).merge atop (p.layers f)) :=
    Std.Associative.assoc _ _ _
  rw [hc.slot_merge, (ho.merge p).layers_eq, ho.slot_merge, (hc.merge o).slot_merge, hc.slot_merge,
    ho.layers_eq, hassoc]

/-- **An overlay goes format by format.** Laid over a configuration in which no two names differ in
case only, any other leaves no such names, keeps every name as it is spelt, and has for each format
what was configured for it, with all entries for the format laid over it in the order of their
names: a provider that is set counts instead of the one below, and settings count one by one. So an
overlay changes nothing when it is repeated, and overlays of such configurations are
associative. -/
theorem merge_is_overlay (c : ProviderConfig) (hc : c.Distinct) (o : ProviderConfig) :
    ((c.merge o).Distinct ∧ ∀ n ∈ c.formats.names, n ∈ (c.merge o).formats.names) ∧
    (∀ f e, (c.merge o).entry f = .ok e ↔ (c.Configures f ∨ o.Configures f) ∧
      e = ((o.matching f).map Prod.snd).foldl ProviderEntry.merge
        ((c.entry f).toOption.getD .empty)) ∧
    (∀ e e' : ProviderEntry, (e.merge e').source = e'.source.or e.source ∧
      (e.merge e').target = e'.target.or e.target ∧
      ∀ name, (e.merge e').settings.get? name =
        (e'.settings.get? name).or (e.settings.get? name)) ∧
    (c.merge o).merge o = c.merge o ∧
    (o.Distinct → ∀ p, c.merge (o.merge p) = (c.merge o).merge p) := by
  refine ⟨⟨hc.merge o, fun n => mem_names_merge o⟩, hc.entry_merge o, fun e e' => ?_,
    hc.merge_merge_self o, fun ho p => hc.merge_assoc ho p⟩
  rw [ProviderEntry.merge_eq]
  exact ⟨rfl, rfl, Dictionary.get?_overlay e.settings e'.settings⟩

/-- Two spellings of a format that is configured, and one that is not, are laid over a
configuration, with a third spelling after them. -/
theorem merge_is_overlay_spellings :
    let lower : ProviderConfig :=
      ⟨⟨[("DELTA", ⟨some "d", some "t", .empty⟩), ("HUDI", ⟨some "h", none, .empty⟩)], by decide⟩⟩
    let upper : ProviderConfig :=
      ⟨⟨[("Delta", ⟨some "a", none, ⟨[("k", "1"), ("l", "1")], by decide⟩⟩),
        ("delta", ⟨some "b", none, ⟨[("k", "2")], by decide⟩⟩), ("paimon", .empty)], by decide⟩⟩
    let last : ProviderConfig := ⟨⟨[("dELTA", ⟨none, some "u", .empty⟩)], by decide⟩⟩
    let merged := lower.merge upper
    lower.Distinct ∧ ¬upper.Distinct ∧ last.Distinct ∧ merged.Distinct ∧
    "DELTA" ∈ merged.formats.names ∧ merged.entry "paimon" = .ok .empty ∧
    merged.entry "dELTA" = .ok ⟨some "b", some "t", ⟨[("k", "2"), ("l", "1")], by decide⟩⟩ ∧
    merged.merge upper = merged ∧
    merged.merge (last.merge upper) = (merged.merge last).merge upper := by
  have hupper : ["DELTA", "Delta", "delta", "dELTA", "HUDI", "paimon"].map Text.upper =
      ["DELTA", "DELTA", "DELTA", "DELTA", "HUDI", "PAIMON"] := by decide +kernel
  simp only [List.map_cons, List.cons.injEq] at hupper
  obtain ⟨hD, hDelta, hdelta, hdELTA, hH, hp, -⟩ := hupper
  intro lower upper last merged
  have hlower : lower.Distinct := by
    simp [Distinct, lower, Dictionary.names, Text.sameLetters, hD, hH]
  have hlast : last.Distinct := by simp [Distinct, last, Dictionary.names]
  have hspellings : ¬upper.Distinct := by
    simp [Distinct, upper, Dictionary.names, Text.sameLetters, hDelta, hdelta]
  obtain ⟨⟨hdistinct, hnames⟩, hentry, -, htwice, -⟩ := merge_is_overlay lower hlower upper
  obtain ⟨-, -, -, -, hassoc⟩ := merge_is_overlay merged hdistinct last
  refine ⟨hlower, hspellings, hlast, hdistinct, hnames "DELTA" (by simp [lower, Dictionary.names]),
    (hentry _ _).mpr ⟨.inr ?_, ?_⟩, (hentry _ _).mpr ⟨.inl ?_, ?_⟩, htwice, hassoc hlast upper⟩
  · simp [Configures, upper, Dictionary.names, Text.sameLetters]
  · simp [matching, upper, lower, toOption_entry, slot, Dictionary.find?, Text.sameLetters, hp, hD,
      hH, hDelta, hdelta]
    rfl
  · simp [Configures, lower, Dictionary.names, Text.sameLetters, hD, hdELTA]
  · simp [matching, upper, lower, toOption_entry, slot, Dictionary.find?, Text.sameLetters, hp, hD,
      hDelta, hdelta, hdELTA]
    decide +kernel

end ProviderConfig

end Lakehouse
