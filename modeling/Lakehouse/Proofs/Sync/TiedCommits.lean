import Lakehouse.Proofs.Sync.SharedRead

/-!
# Commits made at one time

The commits of a source come in an order of its own, and a target is to be given what comes after
its position in that order. Positions are compared by time, and commits made at one time by their
identifiers. These need not agree with the order of the source: of two versions `9` and `10` made in
one second the later has the lesser identifier.

* `History.Chronological`, `History.Places`: a source's own order, in which times never go back and
  every position has a place.
* `TableRun.changesAfter_drop`: what is behind a position is found where the commits made at its
  time are in the order of their identifiers.
* `SyncRequest.run_catches_up`: what a target commits then, in any run.
* `SyncRequest.tied_commit_is_skipped`: otherwise a commit may be passed over.

About `input_for` and the order of `Checkpoint`, which are modelled in `Sync.TableRun` and
`Table.Checkpoint`.
-/

namespace Lakehouse

namespace History

variable {h : History} {place : Checkpoint → Nat} {own : Checkpoint}

/-- The times of commits never go back. -/
def Chronological (h : History) : Prop :=
  h.Pairwise fun x y => y.checkpoint.time.before x.checkpoint.time = false

/-- The places of positions in the order of the source: a position comes behind its first
`place c` commits. A commit is behind those in front of it. -/
def Places (h : History) (place : Checkpoint → Nat) : Prop :=
  ∀ (i : Nat) (x : Change), h[i]? = some x → place x.checkpoint = i + 1

/-- The commits made at the time of a position are on that side of it where their identifiers put
them. -/
def TiesInOrder (h : History) (place : Checkpoint → Nat) (own : Checkpoint) : Prop :=
  ∀ (i : Nat) (x : Change), h[i]? = some x → x.checkpoint.time = own.time →
    (x.checkpoint.upTo own = true ↔ i < place own)

/-- The place of a position that is a commit: behind that commit. -/
def placeOf (h : History) (c : Checkpoint) : Nat := h.findIdx (·.checkpoint == c) + 1

/-- No two commits have one identifier. -/
def DistinctIds (h : History) : Prop := (h.map fun x => x.checkpoint.commit).Nodup

theorem places_placeOf (hd : h.DistinctIds) : h.Places h.placeOf := by
  intro i x hx
  obtain ⟨hi, rfl⟩ := List.getElem?_eq_some_iff.mp hx
  unfold placeOf
  rw [Nat.add_right_cancel_iff, List.findIdx_eq hi]
  refine ⟨beq_self_eq_true _, fun j hj => ?_⟩
  have hne := List.pairwise_iff_getElem.mp hd j i (by rw [List.length_map]; omega)
    (by rw [List.length_map]; exact hi) hj
  rw [List.getElem_map, List.getElem_map] at hne
  rw [beq_eq_false_iff_ne]
  exact fun heq => hne (congrArg Checkpoint.commit heq)

theorem Chronological.le_of_before (hc : h.Chronological) {i j : Nat} {x y : Change}
    (hx : h[i]? = some x) (hy : h[j]? = some y)
    (hbefore : x.checkpoint.time.before y.checkpoint.time = true) : i < j := by
  obtain ⟨hi, rfl⟩ := List.getElem?_eq_some_iff.mp hx
  obtain ⟨hj, rfl⟩ := List.getElem?_eq_some_iff.mp hy
  rcases Nat.lt_trichotomy i j with hlt | heq | hgt
  · exact hlt
  · subst heq
    rw [Instant.before_irrefl] at hbefore
    cases hbefore
  · have hback := List.pairwise_iff_getElem.mp hc j i hj hi hgt
    rw [hback] at hbefore
    cases hbefore

/-- **With its ties in order, a position divides the commits as the source does.** -/
theorem upTo_iff_lt_place (hc : h.Chronological) (hp : h.Places place) (hhas : h.Has own)
    (hties : h.TiesInOrder place own) {i : Nat} {x : Change} (hx : h[i]? = some x) :
    x.checkpoint.upTo own = true ↔ i < place own := by
  obtain ⟨y, hy, rfl⟩ := hhas
  obtain ⟨j, hj⟩ := List.mem_iff_getElem?.mp hy
  have hplace : place y.checkpoint = j + 1 := hp j y hj
  rcases Instant.before_trichotomy x.checkpoint.time y.checkpoint.time with hlt | heq | hgt
  · have hij := hc.le_of_before hx hj hlt
    have hup : x.checkpoint.upTo y.checkpoint = true :=
      Checkpoint.upTo_of_before (Checkpoint.before_iff.mpr (Or.inl hlt))
    rw [hup, hplace]
    exact ⟨fun _ => Nat.lt_succ_of_lt hij, fun _ => rfl⟩
  · exact hties i x hx heq
  · have hji := hc.le_of_before hj hx hgt
    have hup : x.checkpoint.upTo y.checkpoint = false := by
      rw [Bool.eq_false_iff]
      intro hup
      rw [Checkpoint.upTo_iff, Checkpoint.before_iff.mpr (Or.inl hgt)] at hup
      cases hup
    rw [hup, hplace]
    exact ⟨fun hfalse => absurd hfalse Bool.false_ne_true, fun hlt => by omega⟩

/-- An older commit has no later place. -/
theorem place_le_of_upTo (hc : h.Chronological) (hp : h.Places place) (hhas : h.Has own)
    (hties : h.TiesInOrder place own) {c : Checkpoint} (hhas' : h.Has c)
    (hup : c.upTo own = true) : place c ≤ place own := by
  obtain ⟨x, hx, rfl⟩ := hhas'
  obtain ⟨i, hi⟩ := List.mem_iff_getElem?.mp hx
  rw [hp i x hi]
  exact (upTo_iff_lt_place hc hp hhas hties hi).mp hup

end History

/-- The source that answers with what comes after a commit in its own order. -/
def Source.inOwnOrder (h : History) : Source :=
  { Source.ofHistory h with
    changesSince := fun c => .ok (.changes (h.drop (h.placeOf c))) }

namespace TableRun

variable {h : History} {place : Checkpoint → Nat} {own : Checkpoint}

/-- **What is behind a position is what comes after it in the order of the source**, if the read
started no later and the ties of the position are in order. -/
theorem changesAfter_drop (hc : h.Chronological) (hp : h.Places place) (hhas : h.Has own)
    (hties : h.TiesInOrder place own) {start : Nat} (hstart : start ≤ place own) :
    changesAfter own (h.drop start) = h.drop (place own) := by
  have hside : ∀ j, TurningPoint.holdsAt (fun x : Change => x.checkpoint.upTo own)
      (h.drop start) j = true ↔ start + j < h.length ∧ start + j < place own := by
    intro j
    rw [TurningPoint.holdsAt_iff, List.getElem?_drop]
    constructor
    · rintro ⟨x, hx, hup⟩
      exact ⟨(List.getElem?_eq_some_iff.mp hx).1,
        (History.upTo_iff_lt_place hc hp hhas hties hx).mp hup⟩
    · rintro ⟨hlt, hplace⟩
      have hx : h[start + j]? = some h[start + j] := List.getElem?_eq_getElem hlt
      exact ⟨_, hx, (History.upTo_iff_lt_place hc hp hhas hties hx).mpr hplace⟩
  have hturn : TurningPoint.TurnsOnce (fun x : Change => x.checkpoint.upTo own)
      (h.drop start) := by
    refine List.pairwise_iff_getElem.mpr fun i j hi hj hij hup => ?_
    have hj' := (hside j).mp (TurningPoint.holdsAt_iff.mpr ⟨_, List.getElem?_eq_getElem hj, hup⟩)
    obtain ⟨x, hx, hupx⟩ := TurningPoint.holdsAt_iff.mp ((hside i).mpr ⟨by omega, by omega⟩)
    rw [List.getElem?_eq_getElem hi] at hx
    cases hx
    exact hupx
  -- the position is a commit, so its place is within the history
  have hbound : place own ≤ h.length := by
    obtain ⟨x, hx, rfl⟩ := hhas
    obtain ⟨i, hi⟩ := List.mem_iff_getElem?.mp hx
    rw [hp i x hi]
    exact (List.getElem?_eq_some_iff.mp hi).1
  have hfind : TurningPoint.find (fun x : Change => x.checkpoint.upTo own) (h.drop start) =
      place own - start := by
    have hall : ∀ j, j < TurningPoint.find (fun x : Change => x.checkpoint.upTo own)
        (h.drop start) ↔ start + j < place own := fun j => by
      rw [← TurningPoint.holdsAt_iff_lt_find hturn, hside]
      exact ⟨fun hj => hj.2, fun hj => ⟨by omega, hj⟩⟩
    refine Nat.le_antisymm (Nat.le_of_not_lt fun hlt => ?_) (Nat.le_of_not_lt fun hlt => ?_)
    · have := (hall (place own - start)).mp hlt
      omega
    · have := (hall _).mpr (Nat.add_lt_of_lt_sub' hlt)
      omega
  unfold changesAfter
  rw [hfind, List.drop_drop, Nat.add_sub_cancel' hstart]

variable {r : SyncRequest} {s : Services} {source : Source}
  {becomes : Slot Pending → Slot Pending} {changeCalls snapshotCalls : List Call} {p : Prepared}

/-- What a target that goes on is given, of a source that answers in its own order. -/
theorem Readied.supply_drop (hr : Readied r s source becomes changeCalls snapshotCalls p)
    (hmode : r.mode = .incremental)
    (hchanges : ∀ c, source.changesSince c = .ok (.changes (h.drop (place c))))
    (hc : h.Chronological) (hp : h.Places place) (hties : h.TiesInOrder place own)
    (hgoes : r.GoesOnFrom s own) (hhas : h.Has own)
    (helse : ∀ c, r.GoesOnFrom s c → ¬ h.Has c → c.upTo own = true → place c ≤ place own) :
    becomes = id ∧ supply p.snapshot p.changes (.incremental own) =
      givenChanges own (h.drop (place own)) := by
  have hmem := (SyncRequest.mem_positions_iff hmode).mpr hgoes
  have hread := hr.changes
  generalize hgot : p.changes = changes at hread
  cases hread with
  | notNeeded hold =>
    rw [oldest?_eq_none.mp hold] at hmem
    cases hmem
  | @read since cs hold hcs =>
    obtain ⟨hsince, hle⟩ := oldest?_spec hold
    rw [hchanges since] at hcs
    cases hcs
    have hfrom := (SyncRequest.mem_positions_iff hmode).mp hsince
    have hup := hle own hmem
    have hstart : place since ≤ place own := by
      by_cases hhas' : h.Has since
      · exact History.place_le_of_upTo hc hp hhas hties hhas' hup
      · exact helse since hfrom hhas' hup
    refine ⟨rfl, ?_⟩
    simp only [supply]
    rw [changesAfter_drop hc hp hhas hties hstart]
    cases h.drop (place own) with
    | nil => rfl
    | cons x cs => rfl
  | @unavailable since hold hun =>
    rw [hchanges since] at hun
    cases hun
  | @failed since f hold hf hfatal =>
    rw [hchanges since] at hf
    cases hf

/-- What becomes of a target that goes on and is given some changes: it takes these and no others,
or it takes no commit and stays where it is. -/
theorem Readied.ended_given (hr : Readied r s source becomes changeCalls snapshotCalls p)
    (hp : (r.prepare s).value = .ok (.ok p)) (schedule : Schedule) {i : Nat}
    {t : TableDescriptor} {target : Target} {cs : List Change} (ht : r.targets[i]? = some t)
    (hslot : becomes (slotOf s r.mode t) = .ok ⟨t, target, .incremental own⟩)
    (hgiven : supply p.snapshot p.changes (.incremental own) = givenChanges own cs) :
    (cs ≠ [] → (r.run s schedule).calls.filter (Call.commitsTo t.basePath t.format) =
      .applyChanges t cs :: recordCalls ⟨t, target, .incremental own⟩ (target.applyChanges cs)) ∧
    (cs = [] → (r.run s schedule).calls.filter (Call.commitsTo t.basePath t.format) = [] ∧
      (p.slots.map (resultOf s p.snapshot p.changes))[i]? =
        some (.of t .incremental (.succeeded own))) := by
  have hcalls : (r.run s schedule).calls.filter (Call.commitsTo t.basePath t.format) =
      commitCalls ⟨t, target, .incremental own⟩ (givenChanges own cs) := by
    rw [hr.calls_at hp schedule (List.mem_of_getElem? ht) t.isAt_self, hslot, ← hgiven]
    rfl
  refine ⟨fun hne => ?_, fun hnil => ⟨?_, ?_⟩⟩
  · obtain ⟨x, rest, hcons⟩ := List.exists_cons_of_ne_nil hne
    rw [hcalls, hcons]
    rfl
  · rw [hcalls, hnil]
    rfl
  · rw [hr.slots, List.getElem?_map, List.getElem?_map, ht, Option.map_some, Option.map_some,
      hslot]
    simp only [resultOf]
    rw [hgiven, hnil]
    rfl

end TableRun

open TableRun

namespace SyncRequest

variable {r : SyncRequest} {s : Services} {schedule : Schedule} {result : TableResult}
  {source : Source} {h : History} {place : Checkpoint → Nat}

/-- **A target whose ties are in order is given every commit after its position**, and is up to
date only if there is none. The source answers in an order of its own, in which times never go back.
The commits made at the time of the position have to be on that side of it where their identifiers
put them, and a position of another target that is no commit may not be older and yet come later. -/
theorem run_catches_up (hmode : r.mode = .incremental)
    (hs : s.openSource r.source = .ok source) (hc : h.Chronological) (hplaces : h.Places place)
    (hchanges : ∀ c, source.changesSince c = .ok (.changes (h.drop (place c))))
    (hrun : (r.run s schedule).value = .ok result) {i : Nat} {t : TableDescriptor}
    {target : Target} {own : Checkpoint} (ht : r.targets[i]? = some t)
    (ho : s.openTarget t = .ok target) (hown : s.position t = .ok (some own)) (hhas : h.Has own)
    (hties : h.TiesInOrder place own)
    (helse : ∀ c, r.GoesOnFrom s c → ¬ h.Has c → c.upTo own = true → place c ≤ place own) :
    (h.drop (place own) ≠ [] →
      (r.run s schedule).calls.filter (Call.commitsTo t.basePath t.format) =
        .applyChanges t (h.drop (place own)) ::
          match target.applyChanges (h.drop (place own)) with
          | .ok c => [.record t c]
          | .error _ => []) ∧
    (h.drop (place own) = [] →
      (r.run s schedule).calls.filter (Call.commitsTo t.basePath t.format) = [] ∧
        result.targets[i]? = some (.of t .incremental (.succeeded own))) := by
  rcases run_inv hrun with ⟨results, hp, -⟩ | ⟨p, hp, rfl⟩
  · obtain ⟨-, f, hf, -, -⟩ := prepare_inv_error hp
    rw [hs] at hf
    cases hf
  obtain ⟨source', becomes, changeCalls, snapshotCalls, hr⟩ := prepare_inv hp
  have hsource := hr.opened
  rw [hs] at hsource
  cases hsource
  have hgoes : r.GoesOnFrom s own := ⟨t, List.mem_of_getElem? ht, target, ho, hown⟩
  obtain ⟨rfl, hgiven⟩ := hr.supply_drop hmode hchanges hc hplaces hties hgoes hhas helse
  have hslot : id (slotOf s r.mode t) = .ok ⟨t, target, .incremental own⟩ := by
    rw [id_eq, slotOf_of_ok ho hown, hmode]
    rfl
  obtain ⟨hsome, hnone⟩ := hr.ended_given hp schedule ht hslot hgiven
  refine ⟨fun hne => ?_, hnone⟩
  rw [hsome hne]
  cases target.applyChanges (h.drop (place own)) with
  | ok c => rfl
  | error f => rfl

/-- A commit made at the time of the position, and later by its identifier, is not passed over. -/
theorem run_catches_up_past_tie :
    let h : History :=
      [.bare ⟨"8", ⟨10, 0⟩⟩, .bare ⟨"20", ⟨20, 0⟩⟩, .bare ⟨"21", ⟨20, 0⟩⟩]
    let table := TableDescriptor.plain "trips" "/data/trips"
    let store := (CheckpointStore.empty.put "/data/trips" "DELTA" ⟨"8", ⟨10, 0⟩⟩).put
      "/data/trips" "ICEBERG" ⟨"20", ⟨20, 0⟩⟩
    let s := Services.withStore (fun _ => .ok (.inOwnOrder h)) (fun _ => .ok .prompt) store
    let r : SyncRequest := ⟨table "HUDI", [table "DELTA", table "ICEBERG"], .incremental⟩
    h.Chronological ∧ h.DistinctIds ∧ h.TiesInOrder h.placeOf ⟨"20", ⟨20, 0⟩⟩ ∧
      (r.run s .inOrder).calls.filter (Call.commitsTo "/data/trips" "ICEBERG") =
        [.applyChanges (table "ICEBERG") [.bare ⟨"21", ⟨20, 0⟩⟩],
          .record (table "ICEBERG") ⟨"21", ⟨20, 0⟩⟩] := by
  intro h table store s r
  have hc : h.Chronological := by
    have hpair : h.Pairwise fun x y =>
        y.checkpoint.time.before x.checkpoint.time = false := by decide +kernel
    exact hpair
  have hd : h.DistinctIds := by
    have hids : (h.map fun x => x.checkpoint.commit).Nodup := by decide +kernel
    exact hids
  have hties : h.TiesInOrder h.placeOf ⟨"20", ⟨20, 0⟩⟩ := by
    intro i x hx htime
    match i, hx with
    | 0, hx => cases hx; exact absurd htime (by decide +kernel)
    | 1, hx => cases hx; decide +kernel
    | 2, hx => cases hx; decide +kernel
  have hown : s.position (table "ICEBERG") = .ok (some ⟨"20", ⟨20, 0⟩⟩) := by decide +kernel
  have hhas : h.Has ⟨"20", ⟨20, 0⟩⟩ :=
    ⟨.bare ⟨"20", ⟨20, 0⟩⟩, List.mem_cons_of_mem _ List.mem_cons_self, rfl⟩
  -- the other target is at a commit too
  have helse : ∀ c, r.GoesOnFrom s c → ¬ h.Has c →
      c.upTo ⟨"20", ⟨20, 0⟩⟩ = true → h.placeOf c ≤ h.placeOf ⟨"20", ⟨20, 0⟩⟩ := by
    rintro c ⟨t, ht, target, -, hposition⟩ hnot -
    refine absurd ?_ hnot
    rcases List.mem_cons.mp ht with rfl | ht
    · have hfirst : s.position (table "DELTA") = .ok (some ⟨"8", ⟨10, 0⟩⟩) := by decide +kernel
      rw [hfirst] at hposition
      cases hposition
      exact ⟨_, List.mem_cons_self, rfl⟩
    · rw [List.mem_singleton.mp ht, hown] at hposition
      cases hposition
      exact hhas
  have hopens : s.openSource r.source = .ok (.inOwnOrder h) := rfl
  have hok : (r.run s .inOrder).value.toBool = true := by decide +kernel
  refine ⟨hc, hd, hties, ?_⟩
  cases hv : (r.run s .inOrder).value with
  | error halt => rw [hv] at hok; cases hok
  | ok result =>
    have hcaught := run_catches_up (i := 1) rfl hopens hc
      (History.places_placeOf hd) (fun _ => rfl) hv rfl rfl hown hhas hties helse
    exact hcaught.1 (by decide +kernel)

/-- **A commit made at the time of the position may be passed over.** The source has made `10` after
`9` in one second. Of the changes that two targets share, the one at `9` is given none and is
reported up to date. -/
theorem tied_commit_is_skipped :
    let h : History :=
      [.bare ⟨"8", ⟨10, 0⟩⟩, .bare ⟨"9", ⟨20, 0⟩⟩, .bare ⟨"10", ⟨20, 0⟩⟩]
    let table := TableDescriptor.plain "trips" "/data/trips"
    let store := (CheckpointStore.empty.put "/data/trips" "DELTA" ⟨"8", ⟨10, 0⟩⟩).put
      "/data/trips" "ICEBERG" ⟨"9", ⟨20, 0⟩⟩
    let s := Services.withStore (fun _ => .ok (.inOwnOrder h)) (fun _ => .ok .prompt) store
    let r : SyncRequest := ⟨table "HUDI", [table "DELTA", table "ICEBERG"], .incremental⟩
    h.Chronological ∧ h.DistinctIds ∧
      (Source.inOwnOrder h).changesSince ⟨"9", ⟨20, 0⟩⟩ =
        .ok (.changes [.bare ⟨"10", ⟨20, 0⟩⟩]) ∧
      s.position (table "ICEBERG") = .ok (some ⟨"9", ⟨20, 0⟩⟩) ∧
      (r.run s .inOrder).calls.filter (Call.commitsTo "/data/trips" "ICEBERG") = [] ∧
      ∃ result, (r.run s .inOrder).value = .ok result ∧
        result.targets[1]? =
          some (.of (table "ICEBERG") .incremental (.succeeded ⟨"9", ⟨20, 0⟩⟩)) := by
  intro h table store s r
  have hc : h.Chronological := by
    have hpair : h.Pairwise fun x y =>
        y.checkpoint.time.before x.checkpoint.time = false := by decide +kernel
    exact hpair
  have hd : h.DistinctIds := by
    have hids : (h.map fun x => x.checkpoint.commit).Nodup := by decide +kernel
    exact hids
  have hresult : (r.run s .inOrder).value.toOption.bind (fun result => result.targets[1]?) =
      some (.of (table "ICEBERG") .incremental (.succeeded ⟨"9", ⟨20, 0⟩⟩)) := by decide +kernel
  refine ⟨hc, hd, by decide +kernel, by decide +kernel, by decide +kernel, ?_⟩
  cases hv : (r.run s .inOrder).value with
  | error halt => rw [hv] at hresult; cases hresult
  | ok result =>
    rw [hv] at hresult
    exact ⟨result, rfl, hresult⟩

end SyncRequest

end Lakehouse
