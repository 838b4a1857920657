import Lakehouse.Proofs.Sync.Overlap
import Lakehouse.Proofs.Sync.Report

/-!
# Batches in any order

A batch gives the same report whatever the order of work: runs that finish in any order are put back
into the order of the entries, and runs that overlap end as they would one after another, if no two
of them have a target in common.

* `Batch.Ran`, `Batch.exists_ran`: what running some entries one after another comes to.
* `Batch.exists_overlap`: runs one after another are an overlap.
* `Overlap.Reported`, `Overlap.reported`: a report describes each entry, in the order of the
  entries.
* `Overlap.report_ignores_order`: the report and the store of a batch in any order.

About `run_batch`, which is modelled in `Sync.Batch`.
-/

namespace Lakehouse

open Batch

namespace Overlap

variable {base : Services} {services services' : Nat → Services} {store : CheckpointStore}
  {calls calls' : List (Nat × Call)} {i : Nat}

/-! ## Calls that are served -/

theorem Served.congr (h : Served base services store calls)
    (heq : ∀ w ∈ calls, services w.1 = services' w.1) : Served base services' store calls := by
  intro front i t back hcalls
  have hmem : (i, .lookUp t) ∈ calls := by
    rw [hcalls]
    exact List.mem_append_right _ List.mem_cons_self
  rw [← heq _ hmem]
  exact h front i t back hcalls

theorem Served.append (h : Served base services store calls)
    (h' : Served base services (store.after base (calls.map Prod.snd)) calls') :
    Served base services store (calls ++ calls') := by
  intro front i t back hcalls
  rcases List.append_eq_append_iff.mp hcalls with ⟨rest, rfl, hrest⟩ | ⟨rest, hfront, hrest⟩
  · -- the look-up is one of the later calls
    rw [h' rest i t back hrest, List.map_append, CheckpointStore.after_append]
  · cases rest with
    | nil =>
      rw [List.append_nil] at hfront
      rw [h' [] i t back hrest.symm, hfront]
      rfl
    | cons w rest =>
      obtain ⟨rfl, -⟩ := List.cons.inj hrest
      exact h front i t rest hfront

/-- A run is served if the store it finds is the one it is given. -/
theorem served_run (hservices : services i = base.over store) {own : List Call}
    (hlast : own.Pairwise fun c d => c.isCommit = true → d.isCommit = true) :
    Served base services store (own.map (i, ·)) := by
  intro front j t back hcalls
  obtain ⟨before, rest, rfl, hfront, hrest⟩ := List.map_eq_append_iff.mp hcalls
  obtain ⟨c, after, rfl, hc, -⟩ := List.map_eq_cons_iff.mp hrest
  cases hc
  have hquiet : ∀ c ∈ before, c.isCommit = false := by
    intro c hc
    rw [Bool.eq_false_iff]
    intro hcommit
    cases (List.pairwise_append.mp hlast).2.2 c hc _ List.mem_cons_self hcommit
  have hbefore : front.map Prod.snd = before := by
    rw [← hfront, List.map_map]
    exact List.map_id before
  rw [hbefore, CheckpointStore.after_of_quiet store hquiet, hservices]

end Overlap

/-! ## One run after another -/

namespace Batch

variable {base : Services} {targets : Schedule}

/-- The calls of runs one after another. -/
def inTurn (services : Nat → Services) (targets : Schedule) (ws : List (BatchEntry × Nat)) :
    List (Nat × Call) :=
  ws.flatMap fun w => (entryCalls (services w.2) targets w.1).map (w.2, ·)

/-- Running one entry. -/
theorem step_eq (base : Services) (targets : Schedule) (b : Batch) (w : BatchEntry × Nat) :
    step base.over targets b w =
      let s := base.over b.store
      { store := b.store.after base (entryCalls s targets w.1)
        calls := b.calls ++ entryCalls s targets w.1
        reports := b.reports ++ [(w.2, entryReport s targets w.1)] } := by
  obtain ⟨e, i⟩ := w
  cases e with
  | error report =>
    simp only [entryCalls, List.append_nil]
    rfl
  | ok r => rfl

/-- What running some entries comes to, each of which finds one of some stores: `b` is the batch
before, and `b'` the one after. -/
structure Ran (base : Services) (targets : Schedule) (stores : Nat → CheckpointStore)
    (ws : List (BatchEntry × Nat)) (b b' : Batch) : Prop where
  store : b'.store =
    b.store.after base ((inTurn (fun i => base.over (stores i)) targets ws).map Prod.snd)
  calls : b'.calls = b.calls ++ (inTurn (fun i => base.over (stores i)) targets ws).map Prod.snd
  reports : b'.reports =
    b.reports ++ ws.map fun w => (w.2, entryReport (base.over (stores w.2)) targets w.1)
  served : Overlap.Served base (fun i => base.over (stores i)) b.store
    (inTurn (fun i => base.over (stores i)) targets ws)

variable {stores stores' : Nat → CheckpointStore} {ws : List (BatchEntry × Nat)} {b b' : Batch}

theorem Ran.congr (h : Ran base targets stores ws b b')
    (heq : ∀ w ∈ ws, stores w.2 = stores' w.2) : Ran base targets stores' ws b b' := by
  have hturn : inTurn (fun i => base.over (stores i)) targets ws =
      inTurn (fun i => base.over (stores' i)) targets ws := by
    refine List.flatMap_congr fun w hw => ?_
    simp only [heq w hw]
  refine ⟨hturn ▸ h.store, hturn ▸ h.calls, h.reports.trans ?_, hturn ▸ h.served.congr ?_⟩
  · refine congrArg (b.reports ++ ·) (List.map_congr_left fun w hw => ?_)
    rw [heq w hw]
  · intro w hw
    obtain ⟨w', hw', hmem⟩ := List.mem_flatMap.mp hw
    obtain ⟨c, -, rfl⟩ := List.mem_map.mp hmem
    exact congrArg base.over (heq w' hw')

/-- One more entry before others. -/
theorem Ran.cons {w : BatchEntry × Nat} (hstore : stores w.2 = b.store)
    (h : Ran base targets stores ws (step base.over targets b w) b') :
    Ran base targets stores (w :: ws) b b' := by
  obtain ⟨hafter, hcalls, hreports, hserved⟩ := h
  rw [step_eq] at hafter hcalls hreports hserved
  have hturn : inTurn (fun i => base.over (stores i)) targets (w :: ws) =
      (entryCalls (base.over b.store) targets w.1).map (w.2, ·) ++
        inTurn (fun i => base.over (stores i)) targets ws := by
    rw [← hstore]
    exact List.flatMap_cons
  have hown : ((entryCalls (base.over b.store) targets w.1).map (w.2, ·)).map Prod.snd =
      entryCalls (base.over b.store) targets w.1 := by
    rw [List.map_map]
    exact List.map_id _
  refine ⟨?_, ?_, ?_, ?_⟩
  · rw [hafter, hturn, List.map_append, hown, CheckpointStore.after_append]
  · rw [hcalls, hturn, List.map_append, hown, List.append_assoc]
  · rw [hreports, List.map_cons, List.append_assoc, hstore]
    rfl
  · rw [hturn]
    refine Overlap.Served.append (Overlap.served_run (congrArg base.over hstore)
      (makes_entryCalls _ _ _).commitsLast) ?_
    rw [hown]
    exact hserved

/-- **Runs one after another find the store as those before have left it.** -/
theorem exists_ran (base : Services) (targets : Schedule) (ws : List (BatchEntry × Nat))
    (hnodup : (ws.map Prod.snd).Nodup) (b : Batch) :
    ∃ stores, Ran base targets stores ws b (ws.foldl (step base.over targets) b) := by
  induction ws generalizing b with
  | nil =>
    refine ⟨fun _ => b.store, rfl, (List.append_nil _).symm, (List.append_nil _).symm, ?_⟩
    intro front i t back h
    cases (List.append_eq_nil_iff.mp h.symm).2
  | cons w ws ih =>
    obtain ⟨hnew, hnodup⟩ := List.nodup_cons.mp hnodup
    obtain ⟨stores, hran⟩ := ih hnodup (step base.over targets b w)
    refine ⟨fun i => if i = w.2 then b.store else stores i, .cons (if_pos rfl) (hran.congr ?_)⟩
    intro w' hw'
    exact (if_neg fun h => hnew (List.mem_map.mpr ⟨w', hw', h⟩)).symm

/-- **Runs one after another, in any order, are an overlap as well**: no run begins before another
has ended. -/
theorem exists_overlap (base : Services) (tables targets : Schedule) (store : CheckpointStore)
    (entries : List BatchEntry) :
    let b := Batch.run base.over tables targets store entries
    ∃ o : Overlap entries, o.SharesStore base store ∧ o.calls.map Prod.snd = b.calls ∧
      o.report = b.report entries.length ∧ o.storeAfter base store = b.store := by
  intro b
  obtain ⟨stores, hran⟩ := exists_ran base targets (tables.work entries)
    (tables.nodup_work entries) (start store)
  let o : Overlap entries :=
    { services := fun i => base.over (stores i)
      targets := fun _ => targets
      finished := tables
      calls := inTurn (fun i => base.over (stores i)) targets (tables.work entries)
      made := fun i e he => by
        have hown := callsFor_work tables he fun w =>
          entryCalls (base.over (stores w.2)) targets w.1
        unfold inTurn
        rw [hown]
        exact makes_entryCalls _ _ _
      entered := fun w hw => by
        obtain ⟨w', hw', hmem⟩ := List.mem_flatMap.mp hw
        obtain ⟨c, -, rfl⟩ := List.mem_map.mp hmem
        exact (List.getElem?_eq_some_iff.mp (tables.mem_work.mp hw')).1 }
  refine ⟨o, ⟨fun i => ⟨_, rfl⟩, hran.served⟩, hran.calls.symm, ?_, hran.store.symm⟩
  exact congrArg (fun reports => Report.mk (placed entries.length reports)) hran.reports.symm

end Batch

/-! ## Reports in order -/

/-- What is reported of a request whose run came to a result or was stopped. -/
inductive TableReport.Describes (r : SyncRequest) :
    Except Halt TableResult → TableReport → Prop where
  | completed {result : TableResult} (path : result.basePath = r.source.basePath)
      (name : result.tableName = r.source.name) :
      Describes r (.ok result) (.completed result)
  | aborted (halt : Halt) :
      Describes r (.error halt) (.aborted r.source.basePath r.source.name halt.toFault)

theorem SyncRequest.describes_run (r : SyncRequest) (s : Services) (schedule : Schedule) :
    TableReport.Describes r (r.run s schedule).value
      (.of r.source (r.run s schedule).value) := by
  cases hrun : (r.run s schedule).value with
  | ok result =>
    rcases run_inv hrun with ⟨results, -, rfl⟩ | ⟨p, -, rfl⟩
    · exact .completed rfl rfl
    · exact .completed rfl rfl
  | error halt => exact .aborted halt

namespace Overlap

variable {entries : List BatchEntry} {i : Nat}

theorem getElem?_report (o : Overlap entries) {e : BatchEntry} (he : entries[i]? = some e) :
    o.report.tables[i]? = some (o.reportOn (e, i)) := by
  rw [o.report_eq]
  show (entries.zipIdx.map o.reportOn)[i]? = _
  rw [List.getElem?_map, List.getElem?_zipIdx, he, Nat.zero_add]
  rfl

/-- Runs are served out of a store if each is given the store as it was before all of them. -/
theorem sharesStore_of_apart (hapart : Apart entries) {o : Overlap entries} {base : Services}
    {store : CheckpointStore} (h : ∀ i, o.services i = base.over store) :
    o.SharesStore base store where
  others i := ⟨_, h i⟩
  served front i t back hcalls := by
    rw [h i]
    exact base.position_over (untouched_before_lookUp hapart hcalls).symm

/-- A report has one entry for each entry of the batch, in the same order: what became of the
request, or the report that stands in for one. -/
structure Reported (o : Overlap entries) : Prop where
  length : o.report.tables.length = entries.length
  requests : ∀ (i : Nat) (r : SyncRequest), entries[i]? = some (.ok r) →
    ∃ report, o.report.tables[i]? = some report ∧
      TableReport.Describes r (r.run (o.services i) (o.targets i)).value report
  others : ∀ (i : Nat) (report : TableReport), entries[i]? = some (.error report) →
    o.report.tables[i]? = some report

theorem reported (o : Overlap entries) : o.Reported where
  length := by
    rw [o.report_eq]
    show (entries.zipIdx.map o.reportOn).length = entries.length
    rw [List.length_map, List.length_zipIdx]
  requests i r hr := ⟨_, o.getElem?_report hr, r.describes_run _ _⟩
  others i report he := o.getElem?_report he

/-- **A batch does not depend on the order in which its tables are run.** However the runs overlap
and whichever finishes first, the report has one entry for each request, in the order of the
requests, with the result of its run or with why the run was given up, and the report adds up. Runs
one after another, in any order, are one such overlap; and if no two requests have a target in
common and the runs share nothing but the checkpoint store, then every overlap has the report and
leaves the store of these. -/
theorem report_ignores_order (entries : List BatchEntry) :
    (∀ o : Overlap entries, o.Reported ∧ o.report.AddsUp) ∧
    ∀ (base : Services) (store : CheckpointStore) (tables targets : Schedule),
      let b := Batch.run base.over tables targets store entries
      (∃ o : Overlap entries, o.SharesStore base store ∧
        o.report = b.report entries.length ∧ o.storeAfter base store = b.store) ∧
      (Apart entries → ∀ o : Overlap entries, o.SharesStore base store →
        o.report = b.report entries.length ∧ o.storeAfter base store = b.store) := by
  refine ⟨fun o => ⟨o.reported, o.report.addsUp⟩, fun base store tables targets => ?_⟩
  intro b
  obtain ⟨oneByOne, hshares, -, hreport, hstore⟩ :=
    exists_overlap base tables targets store entries
  refine ⟨⟨oneByOne, hshares, hreport, hstore⟩, fun hapart o ho => ?_⟩
  obtain ⟨hreports, hstores⟩ := ends_alike_of_apart hapart ho hshares
  exact ⟨hreports.trans hreport, hstores.trans hstore⟩

/-- Two runs, one of which is made between the look-ups and the commits of the other, and finishes
first. One of its targets refuses. -/
theorem report_ignores_order_in_between :
    let base := Services.withStore
      (fun _ => .ok (.ofHistory [.bare (.second 10), .bare (.second 20)]))
      (fun t => .ok (if t.format = "DELTA" then .prompt else .refusing ⟨.updateException, "full"⟩))
      .empty
    let trips : SyncRequest := ⟨.plain "trips" "/data/trips" "HUDI",
      [.plain "trips" "/data/trips" "DELTA"], .incremental⟩
    let users : SyncRequest := ⟨.plain "users" "/data/users" "HUDI",
      [.plain "users" "/data/users" "ICEBERG", .plain "users" "/data/users" "DELTA"], .full⟩
    let entries : List BatchEntry := [.ok trips, .ok users]
    let b := Batch.run base.over .inOrder .inOrder .empty entries
    ∃ o : Overlap entries, Apart entries ∧ o.SharesStore base .empty ∧
      (o.finished.work entries).map Prod.snd = [1, 0] ∧
      o.calls.map Prod.fst = [0, 0, 0] ++ List.replicate 9 1 ++ [0, 0, 0] ∧
      (o.report = b.report 2 ∧ o.storeAfter base .empty = b.store) ∧
      o.report.tables.map TableReport.basePath = ["/data/trips", "/data/users"] ∧
      o.report.targetsFailed = 1 := by
  intro base trips users entries b
  let s := base.over .empty
  let own (r : SyncRequest) : List Call := (r.run s .inOrder).calls
  have htwo : ∀ i e, entries[i]? = some e → i = 0 ∧ e = .ok trips ∨ i = 1 ∧ e = .ok users := by
    intro i e he
    match i, he with
    | 0, he => exact .inl ⟨rfl, (Option.some.inj he).symm⟩
    | 1, he => exact .inr ⟨rfl, (Option.some.inj he).symm⟩
  let calls := ((own trips).take 3).map (0, ·) ++ (own users).map (1, ·) ++
    ((own trips).drop 3).map (0, ·)
  have hmakers : calls.map Prod.fst = [0, 0, 0] ++ List.replicate 9 1 ++ [0, 0, 0] := by
    decide +kernel
  let o : Overlap entries :=
    { services := fun _ => s
      targets := fun _ => .inOrder
      finished := ⟨List.reverse, List.reverse_perm⟩
      calls
      made := fun i e he => by
        rcases htwo i e he with ⟨rfl, rfl⟩ | ⟨rfl, rfl⟩
        · rw [callsFor_append, callsFor_append, callsFor_self, callsFor_self,
            callsFor_of_ne Nat.one_ne_zero, List.append_nil, List.take_append_drop]
          exact makes_entryCalls s .inOrder (.ok trips)
        · rw [callsFor_append, callsFor_append, callsFor_self, callsFor_of_ne Nat.zero_ne_one,
            callsFor_of_ne Nat.zero_ne_one, List.append_nil, List.nil_append]
          exact makes_entryCalls s .inOrder (.ok users)
      entered := by decide +kernel }
  have hapart : Apart entries := by
    intro i j r q hne hr hq
    rcases htwo i _ hr with ⟨rfl, hr⟩ | ⟨rfl, hr⟩
    all_goals rcases htwo j _ hq with ⟨rfl, hq⟩ | ⟨rfl, hq⟩
    · exact absurd rfl hne
    · cases hr
      cases hq
      decide +kernel
    · cases hr
      cases hq
      decide +kernel
    · exact absurd rfl hne
  have hshares : o.SharesStore base .empty := sharesStore_of_apart hapart fun _ => rfl
  have hsame := ((report_ignores_order entries).2 base .empty .inOrder .inOrder).2 hapart o hshares
  refine ⟨o, hapart, hshares, rfl, hmakers, hsame, ?_, ?_⟩
  · rw [hsame.1]
    decide +kernel
  · rw [hsame.1]
    decide +kernel

end Overlap

end Lakehouse
