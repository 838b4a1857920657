import Lakehouse.Proofs.Sync.Recording

/-!
# Two runs that differ in one target

If the commits to one target, or the recording of its position, are answered otherwise, the run up
to its commits is the same, except that it carries along another target to commit to.

* `Services.DifferAt`: services that differ in what one target answers to its commits.
* `SyncRequest.alike_prepare`: their preparations make the same calls and come to the same end.
-/

namespace Lakehouse

/-- Services that differ at most in what a target answers to its commits and in what comes of
recording its position. -/
structure Services.DifferAt (t : TableDescriptor) (s s' : Services) : Prop where
  openSource : s.openSource = s'.openSource
  lookUp : s.lookUp = s'.lookUp
  others : ∀ u, u ≠ t → s.openTarget u = s'.openTarget u
  /-- The target cannot be opened by the one exactly if it cannot be by the other. -/
  opens : ∀ f, s.openTarget t = .error f ↔ s'.openTarget t = .error f
  record : ∀ basePath format c, t.isAt basePath format = false →
    s.record basePath format c = s'.record basePath format c

namespace TableRun

/-! ## Targets on their way -/

/-- A target on its way through two runs: it has failed alike in both, or is in both. -/
inductive SlotsMatch {α : Type} (R : α → α → Prop) : Slot α → Slot α → Prop where
  | failed (result : TargetResult) : SlotsMatch R (.error result) (.error result)
  | going {a a' : α} (h : R a a') : SlotsMatch R (.ok a) (.ok a')

/-- An opened target in two runs that may differ in one target. -/
structure Opened.Match (t : TableDescriptor) (o o' : Opened) : Prop where
  table : o.table = o'.table
  target : o.table ≠ t → o.target = o'.target

/-- A target with its plan in two runs that may differ in one target. -/
structure Pending.Match (t : TableDescriptor) (p p' : Pending) : Prop where
  table : p.table = p'.table
  plan : p.plan = p'.plan
  target : p.table ≠ t → p.target = p'.target

/-- What two runs that may differ in one target have found out before their commits. -/
structure Prepared.Match (t : TableDescriptor) (p p' : Prepared) : Prop where
  slots : List.Forall₂ (SlotsMatch (Pending.Match t)) p.slots p'.slots
  changes : p.changes = p'.changes
  snapshot : p.snapshot = p'.snapshot

/-- What two runs that may differ in one target come to before their commits. -/
inductive EndsMatch (t : TableDescriptor) :
    Except (List TargetResult) Prepared → Except (List TargetResult) Prepared → Prop where
  | unopened (results : List TargetResult) : EndsMatch t (.error results) (.error results)
  | prepared {p p' : Prepared} (h : p.Match t p') : EndsMatch t (.ok p) (.ok p')

variable {t : TableDescriptor} {s s' : Services} {mode : SyncMode}

theorem plans_eq {slots slots' : List (Slot Pending)}
    (h : List.Forall₂ (SlotsMatch (Pending.Match t)) slots slots') :
    plans slots = plans slots' := by
  unfold plans
  induction h with
  | nil => rfl
  | cons hslot _ ih =>
    cases hslot with
    | failed result => exact ih
    | going hp => exact congrArg₂ List.cons hp.plan ih

theorem allFull_match {slots slots' : List (Slot Pending)}
    (h : List.Forall₂ (SlotsMatch (Pending.Match t)) slots slots') :
    List.Forall₂ (SlotsMatch (Pending.Match t)) (allFull slots) (allFull slots') := by
  unfold allFull
  rw [List.forall₂_map_left_iff, List.forall₂_map_right_iff]
  refine h.imp fun slot slot' hslot => ?_
  cases hslot with
  | failed result => exact .failed result
  | going hp => exact .going ⟨hp.table, rfl, hp.target⟩

theorem withoutSource_eq {f : Fault} {slots slots' : List (Slot Opened)}
    (h : List.Forall₂ (SlotsMatch (Opened.Match t)) slots slots') :
    withoutSource mode f slots = withoutSource mode f slots' := by
  unfold withoutSource
  induction h with
  | nil => rfl
  | cons hslot _ ih =>
    cases hslot with
    | failed result => exact congrArg (result :: ·) ih
    | going ho =>
      rw [List.map_cons, List.map_cons, ih]
      simp only [ho.table]

/-! ## The phases of two runs -/

theorem alike_openTarget (hd : s.DifferAt t s') (u : TableDescriptor) :
    Run.Alike (SlotsMatch (Opened.Match t)) (openTarget s mode u) (openTarget s' mode u) := by
  by_cases hu : u = t
  · subst hu
    cases ho : s.openTarget u with
    | error f =>
      unfold openTarget
      rw [ho, (hd.opens f).mp ho]
      refine (Run.alike_refl (fun _ => rfl) _).bind fun answer _ h => ?_
      subst h
      cases answer with
      | ok target => exact Run.alike_pure (.going ⟨rfl, fun _ => rfl⟩)
      | error g => exact Run.alike_pure (.failed _)
    | ok target =>
      cases ho' : s'.openTarget u with
      | error f => rw [(hd.opens f).mpr ho'] at ho; cases ho
      | ok target' =>
        unfold openTarget
        rw [ho, ho']
        exact ⟨rfl, .value (.going ⟨rfl, fun hne => absurd rfl hne⟩)⟩
  · unfold openTarget
    rw [hd.others u hu]
    refine (Run.alike_refl (fun _ => rfl) _).bind fun answer _ h => ?_
    subst h
    cases answer with
    | ok target => exact Run.alike_pure (.going ⟨rfl, fun _ => rfl⟩)
    | error g => exact Run.alike_pure (.failed _)

theorem alike_planFor (hd : s.DifferAt t s') {slot slot' : Slot Opened}
    (h : SlotsMatch (Opened.Match t) slot slot') :
    Run.Alike (SlotsMatch (Pending.Match t)) (planFor s mode slot) (planFor s' mode slot') := by
  cases h with
  | failed result => exact Run.alike_pure (.failed result)
  | going ho =>
    have hposition : s.position = s'.position := by
      funext u
      simp only [Services.position, hd.lookUp]
    simp only [planFor, ← ho.table, ← hposition]
    refine (Run.alike_refl (fun _ => rfl) _).bind fun answer _ h => ?_
    subst h
    cases answer with
    | ok position => exact Run.alike_pure (.going ⟨rfl, rfl, ho.target⟩)
    | error f => exact Run.alike_pure (.failed _)

theorem alike_readChanges (source : Source) (table : TableDescriptor)
    {slots slots' : List (Slot Pending)}
    (h : List.Forall₂ (SlotsMatch (Pending.Match t)) slots slots') :
    Run.Alike (fun x y => List.Forall₂ (SlotsMatch (Pending.Match t)) x.1 y.1 ∧ x.2 = y.2)
      (readChanges source table slots) (readChanges source table slots') := by
  unfold readChanges
  rw [← plans_eq h]
  split
  · exact Run.alike_pure ⟨h, rfl⟩
  · refine (Run.alike_refl (fun _ => rfl) _).bind fun answer _ heq => ?_
    subst heq
    split
    · exact Run.alike_pure ⟨h, rfl⟩
    · exact Run.alike_pure ⟨allFull_match h, rfl⟩
    · exact Run.alike_pure ⟨h, rfl⟩

theorem readSnapshot_eq (source : Source) (table : TableDescriptor)
    {slots slots' : List (Slot Pending)}
    (h : List.Forall₂ (SlotsMatch (Pending.Match t)) slots slots') :
    readSnapshot source table slots = readSnapshot source table slots' := by
  unfold readSnapshot
  rw [← plans_eq h]

/-! ## The commits of two runs -/

/-- The result of a target depends on no services but the recording of its own position. -/
theorem resultOf_congr {snapshot : Reading Snapshot} {changes : Reading (List Change)} {q : Pending}
    (h : s.recorded q.table = s'.recorded q.table) :
    resultOf s snapshot changes (.ok q) = resultOf s' snapshot changes (.ok q) := by
  simp only [resultOf]
  cases supply snapshot changes q.plan with
  | snapshot snapshot => simp only [reached, recordedAt, h]
  | changes cs => simp only [reached, recordedAt, h]
  | upToDate c => rfl
  | unread f => rfl

theorem getElem?_match {α β : Type} {R : α → β → Prop} {as : List α} {bs : List β}
    (h : List.Forall₂ R as bs) (i : Nat) : Option.Rel R as[i]? bs[i]? := by
  induction h generalizing i with
  | nil => exact .none
  | cons hab _ ih =>
    cases i with
    | zero => exact .some hab
    | succ i => exact ih i

/-- Values that are related, or missing on both sides, have the same image. -/
theorem map_eq_of_rel {α β γ : Type} {R : α → β → Prop} {a : Option α} {b : Option β}
    (h : Option.Rel R a b) {f : α → γ} {g : β → γ}
    (hfg : ∀ x y, a = some x → R x y → f x = g y) : a.map f = b.map g := by
  cases h with
  | none => rfl
  | some hxy => exact congrArg some (hfg _ _ rfl hxy)

theorem Pending.Match.eq_of_ne {q q' : Pending} (h : Pending.Match t q q') (hne : q.table ≠ t) :
    q = q' := by
  obtain ⟨_, _, _⟩ := q
  obtain ⟨_, _, _⟩ := q'
  obtain ⟨htable, hplan, htarget⟩ := h
  simp only at htable hplan htarget hne
  rw [htable, hplan, htarget hne]

variable {r : SyncRequest} {source : Source} {becomes : Slot Pending → Slot Pending}
  {changeCalls snapshotCalls : List Call} {p : Prepared}

/-- A target at another place of the request ends alike. -/
theorem Readied.resultOf_eq (h : Readied r s source becomes changeCalls snapshotCalls p)
    (hd : s.DifferAt t s') {i k : Nat} (hk : r.targets[k]? = some t) (hne : i ≠ k)
    {u : TableDescriptor} (hu : r.targets[i]? = some u) {slot : Slot Pending}
    (hslot : SlotsMatch (Pending.Match t) (becomes (slotOf s r.mode u)) slot) :
    resultOf s p.snapshot p.changes (becomes (slotOf s r.mode u)) =
      resultOf s' p.snapshot p.changes slot := by
  generalize hx : becomes (slotOf s r.mode u) = x at hslot ⊢
  cases hslot with
  | failed result => rfl
  | @going q q' hq =>
    obtain ⟨rfl, -⟩ := h.pending hx
    have hapart : t.isAt q.table.basePath q.table.format = false :=
      SyncRequest.isAt_of_ne h.sound hu hk hne q.table.isAt_self
    have hut : q.table ≠ t := by
      rintro rfl
      rw [TableDescriptor.isAt_self] at hapart
      cases hapart
    rw [← hq.eq_of_ne hut]
    exact resultOf_congr (funext fun c => hd.record _ _ c hapart)

theorem Readied.results_eq (h : Readied r s source becomes changeCalls snapshotCalls p)
    (hd : s.DifferAt t s') {i k : Nat} (hk : r.targets[k]? = some t) (hne : i ≠ k)
    {slots : List (Slot Pending)}
    (hslots : List.Forall₂ (SlotsMatch (Pending.Match t)) p.slots slots) :
    p.slots[i]?.map (resultOf s p.snapshot p.changes) =
      slots[i]?.map (resultOf s' p.snapshot p.changes) := by
  refine map_eq_of_rel (getElem?_match hslots i) fun x y hx hxy => ?_
  rw [h.slots, List.getElem?_map] at hx
  obtain ⟨u, hu, rfl⟩ := Option.map_eq_some_iff.mp hx
  exact h.resultOf_eq hd hk hne hu hxy

end TableRun

open TableRun

namespace SyncRequest

variable {r : SyncRequest} {t : TableDescriptor} {s s' : Services}

theorem alike_prepareWith (hd : s.DifferAt t s') {opened opened' : List (Slot Opened)}
    (h : List.Forall₂ (SlotsMatch (Opened.Match t)) opened opened')
    (answer : Except Fault Source) :
    Run.Alike (EndsMatch t) (r.prepareWith s opened answer)
      (r.prepareWith s' opened' answer) := by
  cases answer with
  | error f =>
    simp only [prepareWith]
    rw [withoutSource_eq h]
    exact Run.alike_pure (.unopened _)
  | ok source =>
    simp only [prepareWith]
    have hplanned : Run.Alike (List.Forall₂ (SlotsMatch (Pending.Match t)))
        (Run.each (planFor s r.mode) opened) (Run.each (planFor s' r.mode) opened') :=
      Run.alike_each (fun _ _ ho => alike_planFor hd ho) h
    refine hplanned.bind fun planned planned' hp => ?_
    refine (alike_readChanges source r.source hp).bind fun read read' hread => ?_
    obtain ⟨slots, changes⟩ := read
    obtain ⟨slots', changes'⟩ := read'
    obtain ⟨hslots, hchanges⟩ := hread
    rw [readSnapshot_eq source r.source hslots]
    refine (Run.alike_refl (fun _ => rfl) _).bind fun snapshot snapshot' hsnapshot => ?_
    exact Run.alike_pure (.prepared ⟨hslots, hchanges, hsnapshot⟩)

/-- **The preparations of two runs that differ in one target make the same calls and come to the
same end.** -/
theorem alike_prepare (r : SyncRequest) (hd : s.DifferAt t s') :
    Run.Alike (EndsMatch t) (r.prepare s) (r.prepare s') := by
  unfold prepare
  refine (Run.alike_refl (fun _ => rfl) _).bind fun _ _ _ => ?_
  have hopened : Run.Alike (List.Forall₂ (SlotsMatch (Opened.Match t)))
      (Run.each (openTarget s r.mode) r.targets) (Run.each (openTarget s' r.mode) r.targets) :=
    Run.alike_each (Q := Eq) (fun u _ hu => hu ▸ alike_openTarget hd u) (List.forall₂_refl _)
  have hsource : TableRun.openSource s = TableRun.openSource s' := by
    funext u
    simp only [TableRun.openSource, hd.openSource]
  refine hopened.bind fun opened opened' ho => ?_
  rw [hsource]
  refine (Run.alike_refl (fun _ => rfl) _).bind fun answer _ hanswer => ?_
  subst hanswer
  exact alike_prepareWith hd ho answer

/-- **The other targets of a request end alike.** -/
theorem ended_alike (hd : s.DifferAt t s') {schedule : Schedule} {k : Nat}
    (hk : r.targets[k]? = some t) {result : TableResult}
    (h : (r.run s schedule).value = .ok result) :
    ∃ result', (r.run s' schedule).value = .ok result' ∧
      ∀ i, i ≠ k → result'.targets[i]? = result.targets[i]? := by
  have hends := (alike_prepare r hd).value
  rcases run_inv h with ⟨results, hp, rfl⟩ | ⟨p, hp, rfl⟩
  · obtain ⟨_, hp', hmatch⟩ := hends.of_ok hp
    cases hmatch
    refine ⟨.of r.source results, ?_, fun i _ => rfl⟩
    rw [run_of_unopened hp']
  · obtain ⟨_, hp', hmatch⟩ := hends.of_ok hp
    cases hmatch with
    | @prepared _ p' hm =>
      refine ⟨.of r.source (p'.slots.map (resultOf s' p'.snapshot p'.changes)), ?_,
        fun i hi => ?_⟩
      · rw [run_of_prepared hp']
      · obtain ⟨source, becomes, changeCalls, snapshotCalls, hready⟩ := prepare_inv hp
        show (p'.slots.map _)[i]? = (p.slots.map _)[i]?
        rw [List.getElem?_map, List.getElem?_map, ← hm.changes, ← hm.snapshot]
        exact (hready.results_eq hd hk hi hm.slots).symm

end SyncRequest

end Lakehouse
