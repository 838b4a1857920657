import Lakehouse.Sync.Run
import Mathlib.Data.List.Forall2

/-!
# Laws of runs

Runs form a monad, and what is known of two runs carries over to the one put together from them.

* `Run.bind_of_ok`, `Run.bind_of_error`: the calls and the value of two runs in a row.
* `Run.bind_inv`: a run in two parts that came to a value came to one in both parts.
* `Run.bind_congr`: what follows a run matters only for the value that the run came to.
* `Run.Guarded`: a run that commits nothing and is stopped for given reasons only. Every way to put
  runs together keeps this.
* `Run.each_inv`, `Run.each_value_iff`: the values and the calls of a run over a list that was not
  stopped, and when it is not.
* `Run.Alike`: two runs with the same calls and related values. Putting runs together keeps this
  as well.
-/

namespace Lakehouse

/-- Whether a run is stopped by this answer: a fatal fault, or a crash. -/
def Halt.isFatal : Halt → Bool
  | fault f => f.isFatal
  | crash _ => true

namespace Run

variable {α β γ : Type}

/-! ## Two runs in a row -/

theorem bind_of_ok {r : Run α} {a : α} (h : r.value = .ok a) (next : α → Run β) :
    r >>= next = ⟨r.calls ++ (next a).calls, (next a).value⟩ := by
  show andThen r next = _
  unfold andThen
  rw [h]

theorem bind_of_error {r : Run α} {halt : Halt} (h : r.value = .error halt) (next : α → Run β) :
    r >>= next = ⟨r.calls, .error halt⟩ := by
  show andThen r next = _
  unfold andThen
  rw [h]

theorem pure_calls (a : α) : (pure a : Run α).calls = [] := rfl

theorem pure_value (a : α) : (pure a : Run α).value = .ok a := rfl

theorem bind_assoc (r : Run α) (next : α → Run β) (last : β → Run γ) :
    r >>= next >>= last = r >>= fun a => next a >>= last := by
  cases hr : r.value with
  | error halt =>
    rw [bind_of_error hr, bind_of_error hr]
    rfl
  | ok a =>
    rw [bind_of_ok hr, bind_of_ok hr]
    cases hn : (next a).value with
    | error halt =>
      rw [bind_of_error hn, bind_of_error rfl]
    | ok b =>
      rw [bind_of_ok hn, bind_of_ok rfl, List.append_assoc]

/-- A run in two parts that came to a value came to one in both parts. -/
theorem bind_inv {r : Run α} {next : α → Run β} {b : β} (h : (r >>= next).value = .ok b) :
    ∃ a, r.value = .ok a ∧ (next a).value = .ok b ∧
      (r >>= next).calls = r.calls ++ (next a).calls := by
  cases hr : r.value with
  | error halt =>
    rw [bind_of_error hr] at h
    exact absurd h (by simp)
  | ok a =>
    rw [bind_of_ok hr] at h ⊢
    exact ⟨a, rfl, h, rfl⟩

/-- What follows a run matters only for the value that the run came to. -/
theorem bind_congr {r : Run α} {next next' : α → Run β}
    (h : ∀ a, r.value = .ok a → next a = next' a) : r >>= next = r >>= next' := by
  cases hr : r.value with
  | error halt => rw [bind_of_error hr, bind_of_error hr]
  | ok a => rw [bind_of_ok hr, bind_of_ok hr, h a hr]

/-- The first of two runs has made its calls, whatever follows. -/
theorem mem_calls_bind {r : Run α} {next : α → Run β} {c : Call} (hc : c ∈ r.calls) :
    c ∈ (r >>= next).calls := by
  cases hr : r.value with
  | error halt =>
    rw [bind_of_error hr]
    exact hc
  | ok a =>
    rw [bind_of_ok hr]
    exact List.mem_append_left _ hc

/-- The second of two runs has made its calls if the first was not stopped. -/
theorem mem_calls_bind_next {r : Run α} {a : α} (h : r.value = .ok a) {next : α → Run β}
    {c : Call} (hc : c ∈ (next a).calls) : c ∈ (r >>= next).calls := by
  rw [bind_of_ok h]
  exact List.mem_append_right _ hc

/-- The calls of two runs in a row are calls of the one or of the other. -/
theorem forall_calls_bind {P : Call → Prop} {r : Run α} {next : α → Run β}
    (hr : ∀ c ∈ r.calls, P c) (hnext : ∀ a, r.value = .ok a → ∀ c ∈ (next a).calls, P c) :
    ∀ c ∈ (r >>= next).calls, P c := by
  cases hv : r.value with
  | error halt =>
    rw [bind_of_error hv]
    exact hr
  | ok a =>
    rw [bind_of_ok hv]
    intro c hc
    rcases List.mem_append.mp hc with hc | hc
    · exact hr c hc
    · exact hnext a hv c hc

/-! ## Answers -/

theorem goOn_eq_ok {answer : Except Halt α} {a : α} :
    goOn answer = .ok (.ok a) ↔ answer = .ok a := by
  constructor
  · intro h
    match answer, h with
    | .ok b, h =>
      simp only [goOn, Except.ok.injEq] at h
      rw [h]
    | .error (.fault f), h =>
      simp only [goOn] at h
      split at h
      · cases h
      · simp at h
    | .error (.crash _), h => cases h
  · rintro rfl
    rfl

/-- A fault is an answer exactly if it is not fatal. -/
theorem goOn_eq_fault {answer : Except Halt α} {f : Fault} :
    goOn answer = .ok (.error f) ↔ answer = .error (.fault f) ∧ f.isFatal = false := by
  constructor
  · intro h
    match answer, h with
    | .ok b, h => simp [goOn] at h
    | .error (.fault g), h =>
      simp only [goOn] at h
      split at h
      · cases h
      · rename_i hg
        simp only [Except.ok.injEq, Except.error.injEq] at h
        rw [← h]
        exact ⟨rfl, Bool.not_eq_true _ ▸ hg⟩
    | .error (.crash _), h => cases h
  · rintro ⟨rfl, hf⟩
    simp only [goOn, hf, Bool.false_eq_true, if_false]

/-- A run is stopped by a fatal fault or a crash. -/
theorem goOn_eq_error {answer : Except Halt α} {halt : Halt} (h : goOn answer = .error halt) :
    answer = .error halt ∧ ∀ f, halt = .fault f → f.isFatal = true := by
  match answer, h with
  | .ok b, h => cases h
  | .error (.fault g), h =>
    simp only [goOn] at h
    split at h
    · rename_i hg
      simp only [Except.error.injEq] at h
      subst h
      exact ⟨rfl, fun f hf => Halt.fault.inj hf ▸ hg⟩
    · cases h
  | .error (.crash _), h =>
    simp only [goOn, Except.error.injEq] at h
    subst h
    exact ⟨rfl, fun f hf => Halt.noConfusion hf⟩

/-- A run goes on with any answer that is not fatal. -/
theorem goOn_iff {answer : Except Halt α} :
    (∃ a, goOn answer = .ok a) ↔ ∀ halt, answer = .error halt → halt.isFatal = false := by
  constructor
  · rintro ⟨a, ha⟩ halt rfl
    match halt, a, ha with
    | .fault f, .ok b, ha => cases goOn_eq_ok.mp ha
    | .fault f, .error g, ha =>
      obtain ⟨hg, hfatal⟩ := goOn_eq_fault.mp ha
      cases hg
      exact hfatal
    | .crash _, _, ha => cases ha
  · intro h
    match answer with
    | .ok a => exact ⟨.ok a, rfl⟩
    | .error (.fault f) => exact ⟨.error f, goOn_eq_fault.mpr ⟨rfl, h _ rfl⟩⟩
    | .error (.crash _) => cases h _ rfl

/-! ## Runs that commit nothing -/

/-- A run that commits nothing and is stopped for no other than some reasons. -/
structure Guarded (reason : Halt → Prop) (r : Run α) : Prop where
  quiet : ∀ c ∈ r.calls, c.isCommit = false
  stop : ∀ halt, r.value = .error halt → reason halt

variable {reason : Halt → Prop}

theorem guarded_pure (a : α) : Guarded reason (pure a : Run α) :=
  ⟨fun _ hc => absurd hc List.not_mem_nil, fun _ h => nomatch h⟩

theorem Guarded.bind {r : Run α} {next : α → Run β} (hr : Guarded reason r)
    (hnext : ∀ a, r.value = .ok a → Guarded reason (next a)) : Guarded reason (r >>= next) := by
  cases hv : r.value with
  | error halt =>
    rw [bind_of_error hv]
    refine ⟨hr.quiet, fun h hh => ?_⟩
    rw [← Except.error.inj hh]
    exact hr.stop halt hv
  | ok a =>
    rw [bind_of_ok hv]
    refine ⟨fun c hc => ?_, (hnext a hv).stop⟩
    rcases List.mem_append.mp hc with hc | hc
    · exact hr.quiet c hc
    · exact (hnext a hv).quiet c hc

theorem guarded_ask {call : Call} {answer : Except Halt α} (hcall : call.isCommit = false)
    (hstop : ∀ halt, goOn answer = .error halt → reason halt) :
    Guarded reason (ask call answer) := by
  refine ⟨fun c hc => ?_, hstop⟩
  rw [List.mem_singleton.mp hc]
  exact hcall

theorem guarded_require {answer : Except Fault α}
    (hstop : ∀ f, answer = .error f → reason (.fault f)) : Guarded reason (require answer) := by
  refine ⟨fun _ hc => absurd hc List.not_mem_nil, fun halt h => ?_⟩
  cases answer with
  | ok a => cases h
  | error f =>
    rw [← Except.error.inj h]
    exact hstop f rfl

theorem Guarded.each {f : α → Run β} {as : List α} (hf : ∀ a ∈ as, Guarded reason (f a)) :
    Guarded reason (each f as) := by
  induction as with
  | nil => exact guarded_pure []
  | cons a as ih =>
    have hrest : Guarded reason (Run.each f as) :=
      ih fun b hb => hf b (List.mem_cons_of_mem a hb)
    exact (hf a List.mem_cons_self).bind fun b _ => hrest.bind fun bs _ => guarded_pure (b :: bs)

/-! ## Runs over a list -/

/-- A run over a list that was not stopped has made all its calls, and its values are known if
those of the single runs are. -/
theorem each_inv {f : α → Run β} {g : α → β} (hg : ∀ a b, (f a).value = .ok b → b = g a) :
    ∀ {as : List α} {bs : List β}, (each f as).value = .ok bs →
      bs = as.map g ∧ (each f as).calls = as.flatMap fun a => (f a).calls
  | [], bs, h => by
    rw [each, pure_value] at h
    exact ⟨(Except.ok.inj h).symm, rfl⟩
  | a :: as, bs, h => by
    rw [each] at h ⊢
    obtain ⟨b, hb, hrest, hcalls⟩ := bind_inv h
    obtain ⟨bs', hbs', hdone, hcalls'⟩ := bind_inv hrest
    obtain ⟨ihv, ihc⟩ := each_inv hg hbs'
    rw [pure_value] at hdone
    refine ⟨?_, ?_⟩
    · rw [← Except.ok.inj hdone, List.map_cons, hg a b hb, ihv]
    · rw [hcalls, hcalls', pure_calls, List.append_nil, ihc, List.flatMap_cons]

/-- A run over a list that nothing can stop. -/
theorem each_of_ok {f : α → Run β} {g : α → β} (hg : ∀ a, (f a).value = .ok (g a)) :
    ∀ as : List α, each f as = ⟨as.flatMap fun a => (f a).calls, .ok (as.map g)⟩
  | [] => rfl
  | a :: as => by
    rw [each, bind_of_ok (hg a), each_of_ok hg as, bind_of_ok rfl, pure_calls, pure_value,
      List.append_nil, List.flatMap_cons, List.map_cons]

/-- A run over a list comes to its values exactly if each single run does. -/
theorem each_value_iff {f : α → Run β} {g : α → β} (hg : ∀ a b, (f a).value = .ok b → b = g a)
    {as : List α} :
    (each f as).value = .ok (as.map g) ↔ ∀ a ∈ as, (f a).value = .ok (g a) := by
  induction as with
  | nil => exact iff_of_true rfl fun a ha => nomatch ha
  | cons a as ih =>
    rw [List.forall_mem_cons, ← ih, each]
    constructor
    · intro h
      obtain ⟨b, hb, hrest, -⟩ := bind_inv h
      obtain ⟨bs, hbs, -, -⟩ := bind_inv hrest
      exact ⟨hg a b hb ▸ hb, (each_inv hg hbs).1 ▸ hbs⟩
    · rintro ⟨ha, has⟩
      rw [bind_of_ok ha, bind_of_ok has]
      rfl

theorem each_congr {f f' : α → Run β} {as : List α} (h : ∀ a ∈ as, f a = f' a) :
    each f as = each f' as := by
  induction as with
  | nil => rfl
  | cons a as ih =>
    rw [each, each, h a List.mem_cons_self, ih fun b hb => h b (List.mem_cons_of_mem a hb)]

/-- Two runs over a list are the same if each single run is, as far as it has come to that. -/
theorem each_congr_of_calls {P : Call → Prop} {f f' : α → Run β} {as : List α}
    (hP : ∀ c ∈ (each f as).calls, P c) (h : ∀ a ∈ as, (∀ c ∈ (f a).calls, P c) → f a = f' a) :
    each f as = each f' as := by
  induction as with
  | nil => rfl
  | cons a as ih =>
    rw [each] at hP ⊢
    rw [each, ← h a List.mem_cons_self fun c hc => hP c (mem_calls_bind hc)]
    refine bind_congr fun b hb => ?_
    rw [ih (fun c hc => hP c (mem_calls_bind_next hb (mem_calls_bind hc)))
      fun a' ha' => h a' (List.mem_cons_of_mem a ha')]

theorem forall_calls_each {P : Call → Prop} {f : α → Run β} {as : List α}
    (h : ∀ a ∈ as, ∀ c ∈ (f a).calls, P c) : ∀ c ∈ (each f as).calls, P c := by
  induction as with
  | nil => exact fun c hc => nomatch hc
  | cons a as ih =>
    refine forall_calls_bind (h a List.mem_cons_self) fun b _ => ?_
    refine forall_calls_bind (ih fun b hb => h b (List.mem_cons_of_mem a hb)) fun bs _ => ?_
    exact fun c hc => nomatch hc

/-! ## Two runs that look alike -/

/-- Two values that are related, or one and the same stop. -/
inductive Matches (R : α → β → Prop) : Except Halt α → Except Halt β → Prop where
  | value {a : α} {b : β} (h : R a b) : Matches R (.ok a) (.ok b)
  | stop (halt : Halt) : Matches R (.error halt) (.error halt)

theorem Matches.of_ok {R : α → β → Prop} {v : Except Halt α} {w : Except Halt β}
    (h : Matches R v w) {a : α} (hv : v = .ok a) : ∃ b, w = .ok b ∧ R a b := by
  subst hv
  cases h with
  | value hab => exact ⟨_, rfl, hab⟩

/-- Two runs that make the same calls and come to related values, or to the same stop. -/
structure Alike (R : α → β → Prop) (r : Run α) (r' : Run β) : Prop where
  calls : r.calls = r'.calls
  value : Matches R r.value r'.value

theorem alike_refl {R : α → α → Prop} (hR : ∀ a, R a a) (r : Run α) : Alike R r r := by
  refine ⟨rfl, ?_⟩
  cases r.value with
  | ok a => exact .value (hR a)
  | error halt => exact .stop halt

theorem alike_pure {R : α → β → Prop} {a : α} {b : β} (h : R a b) :
    Alike R (pure a) (pure b) := ⟨rfl, .value h⟩

theorem Alike.bind {α' β' : Type} {R : α → α' → Prop} {S : β → β' → Prop} {r : Run α}
    {r' : Run α'} {next : α → Run β} {next' : α' → Run β'} (hr : Alike R r r')
    (hnext : ∀ a a', R a a' → Alike S (next a) (next' a')) :
    Alike S (r >>= next) (r' >>= next') := by
  obtain ⟨calls, v⟩ := r
  obtain ⟨calls', v'⟩ := r'
  obtain ⟨hcalls, hvalue⟩ := hr
  cases hvalue with
  | value h =>
    rw [bind_of_ok rfl, bind_of_ok rfl]
    refine ⟨?_, (hnext _ _ h).value⟩
    show calls ++ _ = calls' ++ _
    rw [show calls = calls' from hcalls, (hnext _ _ h).calls]
  | stop halt =>
    rw [bind_of_error rfl, bind_of_error rfl]
    exact ⟨hcalls, .stop halt⟩

/-- Runs over lists whose items are related one by one. -/
theorem alike_each {α' β' : Type} {Q : α → α' → Prop} {R : β → β' → Prop} {f : α → Run β}
    {f' : α' → Run β'} (hf : ∀ a a', Q a a' → Alike R (f a) (f' a')) {as : List α}
    {as' : List α'} (has : List.Forall₂ Q as as') :
    Alike (List.Forall₂ R) (each f as) (each f' as') := by
  induction has with
  | nil => exact alike_pure .nil
  | cons ha _ ih =>
    exact (hf _ _ ha).bind fun _ _ hb => ih.bind fun _ _ hbs => alike_pure (.cons hb hbs)

end Run

end Lakehouse
