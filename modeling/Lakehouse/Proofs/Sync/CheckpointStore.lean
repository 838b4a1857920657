import Lakehouse.Proofs.Dictionary
import Lakehouse.Proofs.Sync.Settlement

/-!
# What calls leave in the checkpoint store

Of the calls of a run only those that record a position change the store, each at one target. So the
position of a target depends on the calls that touch this target, and calls that touch different
targets can be made in any order.

* `CheckpointStore.get?_after`: the position of a target after some calls is told from the calls
  that touch it.
* `CheckpointStore.after_perm`: calls that record each target's position at most once leave the
  same store in any order.
-/

namespace Lakehouse

/-- What is seen of a state after some steps is told from the steps that can be seen, if every step
treats alike what looks alike. -/
theorem view_foldl_filter {α β γ : Type} {step : α → γ → α} (view : α → β) {seen : γ → Bool}
    (hcongr : ∀ {a b : α} (c : γ), view a = view b → view (step a c) = view (step b c))
    (hskip : ∀ (a : α) {c : γ}, seen c = false → view (step a c) = view a) {a b : α}
    (h : view a = view b) (cs : List γ) :
    view (cs.foldl step a) = view ((cs.filter seen).foldl step b) := by
  induction cs generalizing a b with
  | nil => exact h
  | cons c cs ih =>
    rw [List.foldl_cons]
    by_cases hc : seen c = true
    · rw [List.filter_cons_of_pos hc, List.foldl_cons]
      exact ih (hcongr c h)
    · rw [List.filter_cons_of_neg hc]
      exact ih ((hskip a (Bool.not_eq_true _ ▸ hc)).trans h)

namespace CheckpointStore

variable {s : Services}

/-! ## Recording at different targets -/

theorem put_comm (store : CheckpointStore) {b b' f f' : String}
    (hne : ¬ (b = b' ∧ Text.upper f = Text.upper f')) (c c' : Checkpoint) :
    (store.put b f c).put b' f' c' = (store.put b' f' c').put b f c := by
  simp only [put, Dictionary.alter]
  refine congrArg CheckpointStore.mk ?_
  by_cases hb : b = b'
  · -- one base path: the formats differ
    subst hb
    have hf : Text.upper f ≠ Text.upper f' := fun hf => hne ⟨rfl, hf⟩
    rw [Dictionary.get?_insert_self, Dictionary.get?_insert_self, Option.getD_some,
      Option.getD_some, Dictionary.insert_insert, Dictionary.insert_insert,
      Dictionary.insert_comm _ hf]
  · rw [Dictionary.get?_insert_of_ne _ (Ne.symm hb), Dictionary.get?_insert_of_ne _ hb,
      Dictionary.insert_comm _ hb]

/-! ## Calls -/

theorem after_append (store : CheckpointStore) (calls calls' : List Call) :
    store.after s (calls ++ calls') = (store.after s calls).after s calls' :=
  List.foldl_append

/-- The position of a target after one call that does not touch it. -/
theorem get?_afterCall_of_not (store : CheckpointStore) {c : Call} {basePath format : String}
    (h : c.commitsTo basePath format = false) :
    (afterCall s store c).get? basePath format = store.get? basePath format := by
  cases c with
  | record t d =>
    simp only [afterCall]
    split
    · rw [get?_put, if_neg]
      rintro ⟨hb, hf⟩
      have hat : t.isAt basePath format = true :=
        TableDescriptor.isAt_iff.mpr ⟨hb.symm, hf.symm⟩
      exact Bool.false_ne_true (h.symm.trans hat)
    · rfl
  | openTarget | openSource | lookUp | changesSince | currentSnapshot | replaceAll
  | applyChanges => rfl

/-- One call treats alike two stores with the same position of a target. -/
theorem get?_afterCall_congr {store store' : CheckpointStore} {basePath format : String}
    (h : store.get? basePath format = store'.get? basePath format) (c : Call) :
    (afterCall s store c).get? basePath format = (afterCall s store' c).get? basePath format := by
  cases c with
  | record t d =>
    simp only [afterCall]
    split
    · rw [get?_put, get?_put, h]
    · exact h
  | openTarget | openSource | lookUp | changesSince | currentSnapshot | replaceAll
  | applyChanges => exact h

/-- **The position of a target after some calls is told from the calls that touch it.** -/
theorem get?_after {store store' : CheckpointStore} {basePath format : String}
    (h : store.get? basePath format = store'.get? basePath format) (calls : List Call) :
    (store.after s calls).get? basePath format =
      (store'.after s (calls.filter (Call.commitsTo basePath format))).get? basePath format :=
  view_foldl_filter (fun store : CheckpointStore => store.get? basePath format)
    (fun c heq => get?_afterCall_congr heq c)
    (fun store _ hc => get?_afterCall_of_not store hc) h calls

/-- Two calls that do not record different positions of one target. -/
def Agree : Call → Call → Prop
  | .record t c, .record u d =>
    t.isAt u.basePath u.format = true → Call.record t c = Call.record u d
  | _, _ => True

theorem agree_of_records {x y : Call}
    (h : ∀ t c u d, x = .record t c → y = .record u d → t.isAt u.basePath u.format = true →
      Call.record t c = .record u d) : Agree x y := by
  cases x with
  | record t c =>
    cases y with
    | record u d => exact h t c u d rfl rfl
    | openTarget | openSource | lookUp | changesSince | currentSnapshot | replaceAll
    | applyChanges => exact trivial
  | openTarget | openSource | lookUp | changesSince | currentSnapshot | replaceAll
  | applyChanges => exact trivial

theorem agree_of_not_commit {x : Call} (hx : x.isCommit = false) (y : Call) : Agree x y :=
  agree_of_records fun t c u d hxt _ => by
    rw [hxt] at hx
    cases hx

/-- Calls that commit nothing leave the store as it is. -/
theorem after_of_quiet (store : CheckpointStore) {calls : List Call}
    (h : ∀ c ∈ calls, c.isCommit = false) : store.after s calls = store := by
  induction calls with
  | nil => rfl
  | cons c calls ih =>
    have hc : afterCall s store c = store := by
      cases c with
      | record t d => cases h _ List.mem_cons_self
      | openTarget | openSource | lookUp | changesSince | currentSnapshot | replaceAll
      | applyChanges => rfl
    show (afterCall s store c).after s calls = store
    rw [hc]
    exact ih fun d hd => h d (List.mem_cons_of_mem c hd)

theorem afterCall_comm (store : CheckpointStore) {x y : Call} (h : Agree x y) :
    afterCall s (afterCall s store x) y = afterCall s (afterCall s store y) x := by
  cases x with
  | record t c =>
    cases y with
    | record u d =>
      by_cases hat : t.isAt u.basePath u.format = true
      · cases h hat
        rfl
      · have hne : ¬ (t.basePath = u.basePath ∧ Text.upper t.format = Text.upper u.format) :=
          fun heq => hat (TableDescriptor.isAt_iff.mpr heq)
        simp only [afterCall]
        cases s.recorded t c with
        | error f => rfl
        | ok _ =>
          cases s.recorded u d with
          | error f => rfl
          | ok _ => exact put_comm store hne c d
    | openTarget | openSource | lookUp | changesSince | currentSnapshot | replaceAll
    | applyChanges => rfl
  | openTarget | openSource | lookUp | changesSince | currentSnapshot | replaceAll
  | applyChanges => rfl

/-- **Calls that record each position once leave the same store in any order.** -/
theorem after_perm (store : CheckpointStore) {calls calls' : List Call}
    (hperm : calls.Perm calls') (hagree : ∀ x ∈ calls, ∀ y ∈ calls, Agree x y) :
    store.after s calls = store.after s calls' :=
  hperm.foldl_eq' (fun x hx y hy z => afterCall_comm z (hagree x hx y hy)) store

end CheckpointStore

end Lakehouse
