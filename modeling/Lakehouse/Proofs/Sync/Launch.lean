import Lakehouse.Proofs.Config.Files
import Lakehouse.Proofs.Sync.BatchOrder
import Lakehouse.Sync.Launch

/-!
# Every table is reported in its place

Some tables of a dataset are run and others are rejected, and the reports on both come from
different lists. What is put back at a position depends on how many requests stand before it. The
reports are in the order of the dataset whatever the positions of the rejected tables are.

* `Launch.getElem?_putBack`: the report that is put back at a position.
* `Dataset.InPlace`: what a report says of each table of a dataset.
* `Launch.inPlace_of_overlap`: however the runs overlap, the report says so.
* `Arguments.launch_reports_in_place`: what arguments come to.

About `run`, which is modelled in `Sync.Launch`, for whatever reads its documents.
-/

namespace Lakehouse

namespace Launch

/-! ## Putting reports back -/

variable {entries : List BatchEntry} {report : TableReport} {executed : List TableReport}
  {i k : Nat}

/-- The requests among entries. -/
def proper (entries : List BatchEntry) : List SyncRequest := entries.filterMap Except.toOption

theorem rejectedFrom_error : rejectedFrom i (.error report :: entries) =
    (i, report) :: rejectedFrom (i + 1) entries := by
  simp [rejectedFrom]

theorem rejectedFrom_ok (q : SyncRequest) :
    rejectedFrom i (.ok q :: entries) = rejectedFrom (i + 1) entries := by
  simp [rejectedFrom]

theorem le_of_mem_rejectedFrom {w : Nat × TableReport} (h : w ∈ rejectedFrom i entries) :
    i ≤ w.1 := by
  obtain ⟨⟨e, j⟩, hmem, hw⟩ := List.mem_filterMap.mp h
  have hle : i ≤ j := List.le_snd_of_mem_zipIdx hmem
  cases e with
  | error report =>
    cases hw
    exact hle
  | ok q => cases hw

/-- At the position of a request no rejected entry is next. -/
theorem head?_rejectedFrom_ok (q : SyncRequest) :
    ((rejectedFrom i (.ok q :: entries)).head?.filter fun w => w.1 = i) = none := by
  rw [rejectedFrom_ok, Option.filter_eq_none_iff]
  intro w hw
  have hle := le_of_mem_rejectedFrom (List.mem_of_mem_head? hw)
  simp only [decide_eq_true_eq]
  omega

theorem putBack_rejected {rejected : List (Nat × TableReport)} (n : Nat) :
    putBack (n + 1) i ((i, report) :: rejected) executed =
      report :: putBack n (i + 1) rejected executed := by
  have hnext : ((i, report) :: rejected).head?.filter (fun w => w.1 = i) = some (i, report) := by
    simp
  rw [putBack, hnext]
  rfl

theorem putBack_executed {rejected : List (Nat × TableReport)} (n : Nat)
    (hnext : (rejected.head?.filter fun w => w.1 = i) = none) :
    putBack (n + 1) i rejected (report :: executed) =
      report :: putBack n (i + 1) rejected executed := by
  rw [putBack, hnext]
  rfl

/-- **What is put back at a position**: the report that stands in for a request, or else the next of
the reports on requests. -/
theorem getElem?_putBack (hlength : executed.length = (proper entries).length) :
    (putBack entries.length i (rejectedFrom i entries) executed)[k]? =
      entries[k]?.bind fun
        | .error report => some report
        | .ok _ => executed[(proper (entries.take k)).length]? := by
  -- at each position as many executed reports are left as requests
  induction entries generalizing i executed k with
  | nil => rfl
  | cons e entries ih =>
    cases e with
    | error report =>
      rw [List.length_cons, rejectedFrom_error, putBack_rejected]
      cases k with
      | zero => rfl
      | succ k => exact ih hlength
    | ok q =>
      obtain ⟨x, rest, rfl⟩ := List.exists_cons_of_length_eq_add_one hlength
      rw [List.length_cons, putBack_executed _ (head?_rejectedFrom_ok q), rejectedFrom_ok]
      cases k with
      | zero => rfl
      | succ k =>
        rw [List.getElem?_cons_succ, List.getElem?_cons_succ, ih (Nat.succ.inj hlength)]
        rfl

theorem length_putBack (hlength : executed.length = (proper entries).length) :
    (putBack entries.length i (rejectedFrom i entries) executed).length = entries.length := by
  induction entries generalizing i executed with
  | nil => rfl
  | cons e entries ih =>
    cases e with
    | error report =>
      rw [List.length_cons, rejectedFrom_error, putBack_rejected, List.length_cons, ih hlength]
    | ok q =>
      obtain ⟨x, rest, rfl⟩ := List.exists_cons_of_length_eq_add_one hlength
      rw [List.length_cons, putBack_executed _ (head?_rejectedFrom_ok q), rejectedFrom_ok,
        List.length_cons, ih (Nat.succ.inj hlength)]

/-- A request stands behind the requests of the entries before it. -/
theorem getElem?_proper {q : SyncRequest} (h : entries[k]? = some (.ok q)) :
    (proper entries)[(proper (entries.take k)).length]? = some q := by
  obtain ⟨hk, hget⟩ := List.getElem?_eq_some_iff.mp h
  have hsplit : proper entries =
      proper (entries.take k) ++ q :: proper (entries.drop (k + 1)) := by
    unfold proper
    conv_lhs => rw [← List.take_append_drop k entries, List.drop_eq_getElem_cons hk, hget]
    simp [Except.toOption]
  rw [hsplit, List.getElem?_append_right (Nat.le_refl _), Nat.sub_self]
  rfl

end Launch

/-! ## Reports on a dataset -/

/-- The number of requests among the tables before a position. -/
def Dataset.requestsBefore (d : Dataset) (catalog : Option Catalog) (mode : SyncMode) (i : Nat) :
    Nat :=
  (d.tables.take i).countP fun t => (d.request catalog mode t).isOk

/-- A report has one entry for each table of a dataset, in its place: why its request was refused,
or what the run of its request came to. The runs are counted in the order of the requests. -/
structure Dataset.InPlace (d : Dataset) (catalog : Option Catalog) (mode : SyncMode)
    (services : Nat → Services) (targets : Nat → Schedule) (report : Report) : Prop where
  length : report.tables.length = d.tables.length
  rejected : ∀ (i : Nat) (t : DatasetTable) (f : Fault), d.tables[i]? = some t →
    d.request catalog mode t = .error f →
      report.tables[i]? = some (.aborted t.basePath t.name f)
  executed : ∀ (i : Nat) (t : DatasetTable) (q : SyncRequest), d.tables[i]? = some t →
    d.request catalog mode t = .ok q →
      let run := d.requestsBefore catalog mode i
      report.tables[i]? = some (.of q.source (q.run (services run) (targets run)).value)

namespace Launch

variable {d : Dataset} {catalog : Option Catalog} {mode : SyncMode} {l : Launch}

theorem length_proper_take (d : Dataset) (catalog : Option Catalog) (mode : SyncMode) (i : Nat) :
    (proper ((d.tables.map (entry d catalog mode)).take i)).length =
      d.requestsBefore catalog mode i := by
  unfold proper Dataset.requestsBefore
  rw [← List.map_take, List.filterMap_map, List.length_filterMap_eq_countP]
  refine List.countP_congr fun t _ => ?_
  rw [Function.comp_apply, entry]
  cases d.request catalog mode t <;>
    simp [Except.mapError, Except.toOption, Except.isOk, Except.toBool]

/-- **However the runs overlap, every table is reported in its place.** -/
theorem inPlace_of_overlap (hl : l.entries = d.tables.map (entry d catalog mode))
    (o : Overlap (l.requests.map .ok)) :
    d.InPlace catalog mode o.services o.targets (l.report o.report) := by
  have hlength : o.report.tables.length = (proper l.entries).length := by
    rw [o.reported.length, List.length_map]
    rfl
  have hentry : ∀ (i : Nat) (t : DatasetTable), d.tables[i]? = some t →
      l.entries[i]? = some (entry d catalog mode t) := by
    intro i t ht
    rw [hl, List.getElem?_map, ht]
    rfl
  refine ⟨?_, ?_, ?_⟩
  · show (putBack _ _ _ _).length = _
    rw [length_putBack hlength, hl, List.length_map]
  · intro i t f ht hf
    have he : entry d catalog mode t = .error (.aborted t.basePath t.name f) := by
      rw [entry, hf]
      rfl
    show (putBack _ _ _ _)[i]? = _
    rw [getElem?_putBack hlength, hentry i t ht, he]
    rfl
  · intro i t q ht hq run
    have he : entry d catalog mode t = .ok q := by
      rw [entry, hq]
      rfl
    have hrun : (proper (l.entries.take i)).length = run := by
      rw [hl]
      exact length_proper_take d catalog mode i
    have hrequest : (l.requests.map (Except.ok (ε := TableReport)))[run]? = some (.ok q) := by
      rw [List.getElem?_map, ← hrun]
      exact congrArg (Option.map _) (getElem?_proper ((hentry i t ht).trans (congrArg some he)))
    show (putBack _ _ _ _)[i]? = _
    rw [getElem?_putBack hlength, hentry i t ht, he]
    show o.report.tables[(proper (l.entries.take i)).length]? = _
    rw [hrun]
    exact o.getElem?_report hrequest

/-! ## Documents -/

/-- The documents of arguments can be loaded, and the source format is known. -/
structure Loads (a : Arguments) (reader : DocumentReader) (files : FileSystem) (d : Dataset)
    (c : ProviderConfig) (catalog : Option Catalog) : Prop where
  dataset : Dataset.load reader files a.dataset = .ok d
  providers : ProviderConfig.load reader files a.providers = .ok c
  catalog : Catalog.load reader files a.catalog = .ok catalog
  sourceFormat : ∃ e, c.entry d.sourceFormat = .ok e

/-- The run of a dataset. -/
def of (a : Arguments) (d : Dataset) (c : ProviderConfig) (catalog : Option Catalog) : Launch :=
  ⟨c, a.storage, d.tables.map (entry d catalog a.mode)⟩

variable {a : Arguments} {reader : DocumentReader} {files : FileSystem} {c : ProviderConfig}

/-- **A run can begin exactly if the documents can be loaded and the source format is known.** -/
theorem prepare_eq_ok_iff :
    prepare a reader files = .ok l ↔
      ∃ d c catalog, Loads a reader files d c catalog ∧ l = of a d c catalog := by
  unfold prepare
  constructor
  · intro h
    obtain ⟨d, hd, h⟩ := bind_eq_ok.mp h
    obtain ⟨c, hc, h⟩ := bind_eq_ok.mp h
    obtain ⟨catalog, hcatalog, h⟩ := bind_eq_ok.mp h
    obtain ⟨e, he, h⟩ := bind_eq_ok.mp h
    cases h
    exact ⟨d, c, catalog, ⟨mapError_eq_ok.mp hd, mapError_eq_ok.mp hc, mapError_eq_ok.mp hcatalog,
      e, mapError_eq_ok.mp he⟩, rfl⟩
  · rintro ⟨d, c, catalog, ⟨hd, hc, hcatalog, e, he⟩, rfl⟩
    rw [hd, hc, hcatalog]
    show (c.entry d.sourceFormat).mapError LaunchProblem.sourceFormat >>= _ = _
    rw [he]
    rfl

/-! ## The whole run -/

variable {σ τ : Type}

/-- The report on a run is put together from the report on its requests. -/
theorem report_run (l : Launch) (r : Registry σ τ)
    (services : Registry σ τ → CheckpointStore → Services) (tables targets : Schedule)
    (store : CheckpointStore) (o : Overlap (l.requests.map .ok))
    (ho : o.report = (Batch.run (services (l.registry r)) tables targets store
      (l.requests.map .ok)).report l.requests.length) :
    (l.run r services tables targets store).report l.entries.length = l.report o.report := by
  have hplaced : ∀ reports : List TableReport,
      placed reports.length (reports.zipIdx.map Prod.swap) = reports := fun reports =>
    (Schedule.inOrder.placed_work_zipIdx reports Prod.fst).trans (List.zipIdx_map_fst 0 reports)
  have hlength : (l.report o.report).tables.length = l.entries.length := by
    refine length_putBack ?_
    rw [o.reported.length, List.length_map]
    rfl
  simp only [run]
  rw [← ho, ← hlength]
  exact congrArg Report.mk (hplaced (l.report o.report).tables)

end Launch

/-- **Every table of a dataset is reported in its place**, whatever reads the documents of a run. If
they can be loaded and the source format is known, the registry is configured, and however the runs
of the requests overlap, the report has one entry for each table: why its request was refused, or
what its run came to. Runs one after another, in any order, are such an overlap. Otherwise there is
no report; no call is made, and the registry and the checkpoint store are left as they were. -/
theorem Arguments.launch_reports_in_place {σ τ : Type} (a : Arguments) (reader : DocumentReader)
    (files : FileSystem) (r : Registry σ τ) (store : CheckpointStore) :
    (∀ d c catalog, Launch.Loads a reader files d c catalog →
      let l := Launch.of a d c catalog
      (∀ o : Overlap (l.requests.map .ok),
        d.InPlace catalog a.mode o.services o.targets (l.report o.report)) ∧
      ∀ (base : Registry σ τ → Services) (tables targets : Schedule),
        let done := a.launch reader files r (fun r => (base r).over) tables targets store
        done.registry = r.configure c a.storage ∧
        ∃ o : Overlap (l.requests.map .ok), o.SharesStore (base done.registry) store ∧
          done.answer = .ok (l.report o.report) ∧ done.calls = o.calls.map Prod.snd ∧
          done.store = o.storeAfter (base done.registry) store) ∧
    ((¬∃ d c catalog, Launch.Loads a reader files d c catalog) →
      ∀ (services : Registry σ τ → CheckpointStore → Services) (tables targets : Schedule),
        let done := a.launch reader files r services tables targets store
        (∃ p, done.answer = .error p) ∧ done.registry = r ∧ done.store = store ∧
          done.calls = []) := by
  constructor
  · intro d c catalog hloads l
    refine ⟨fun o => Launch.inPlace_of_overlap rfl o, fun base tables targets => ?_⟩
    have hprepare : Launch.prepare a reader files = .ok l :=
      Launch.prepare_eq_ok_iff.mpr ⟨d, c, catalog, hloads, rfl⟩
    obtain ⟨o, hshares, hcalls, hreport, hstore⟩ := Batch.exists_overlap
      (base (l.registry r)) tables targets store (l.requests.map .ok)
    rw [List.length_map] at hreport
    unfold Arguments.launch
    rw [hprepare]
    refine ⟨rfl, o, hshares, ?_, hcalls.symm, hstore.symm⟩
    exact congrArg Except.ok
      (l.report_run r (fun r => (base r).over) tables targets store o hreport)
  · intro hnone services tables targets
    unfold Arguments.launch
    cases hprepare : Launch.prepare a reader files with
    | error p => exact ⟨⟨p, rfl⟩, rfl, rfl, rfl⟩
    | ok l =>
      obtain ⟨d, c, catalog, hloads, -⟩ := Launch.prepare_eq_ok_iff.mp hprepare
      exact absurd ⟨d, c, catalog, hloads⟩ hnone

/-- Of four tables the first and the third have a spec that is not well formed, and the others are
run. A dataset in a format that is not configured is not run. -/
theorem Arguments.launch_reports_in_place_rejected :
    let files : FileSystem := fun path =>
      if path = "lake.yaml" then .ok (
        "sourceFormat: HUDI\ntargetFormats: [ICEBERG]\ndatasets:\n" ++
        "- {tableBasePath: /users, tableName: users, partitionSpec: NOPE}\n" ++
        "- {tableBasePath: /trips, tableName: trips}\n" ++
        "- {tableBasePath: /orders, tableName: orders, partitionSpec: NOPE}\n" ++
        "- {tableBasePath: /rides, tableName: rides}\n")
      else if path = "stream.yaml" then .ok "sourceFormat: PAIMON\n"
      else .error "No such file or directory (os error 2)"
    let base (_ : Registry Unit Unit) := Services.withStore
      (fun _ => .ok (.ofHistory [.bare (.second 10)])) (fun _ => .ok .prompt) .empty
    let launch (dataset : String) :=
      Arguments.launch ⟨dataset, none, none, none, .incremental, .text⟩ Yaml.reader files .empty
        (fun r => (base r).over) .inOrder .inOrder .empty
    let refused := (PartitionSpec.Problem.noTransform "NOPE").fault
    let request (name path : String) : SyncRequest :=
      ⟨.plain name path "HUDI", [.plain name path "ICEBERG"], .incremental⟩
    (∃ (report : Report) (services : Nat → Services) (targets : Nat → Schedule),
      (launch "lake.yaml").answer = .ok report ∧ report.tables.length = 4 ∧
      report.tables[0]? = some (.aborted "/users" "users" refused) ∧
      report.tables[1]? = some (.of (request "trips" "/trips").source
        ((request "trips" "/trips").run (services 0) (targets 0)).value) ∧
      report.tables[2]? = some (.aborted "/orders" "orders" refused) ∧
      report.tables[3]? = some (.of (request "rides" "/rides").source
        ((request "rides" "/rides").run (services 1) (targets 1)).value)) ∧
    (∃ p, (launch "stream.yaml").answer = .error p) ∧ (launch "stream.yaml").calls = [] := by
  intro files base launch refused request
  -- the runs are named and not computed
  have hlaunch (dataset : String) : launch dataset =
      Arguments.launch ⟨dataset, none, none, none, .incremental, .text⟩ Yaml.reader files .empty
        (fun r => (base r).over) .inOrder .inOrder .empty := rfl
  rw [hlaunch, hlaunch]
  constructor
  · let d : Dataset := ⟨"HUDI", ["ICEBERG"], [⟨"/users", none, "users", some "NOPE", none⟩,
      ⟨"/trips", none, "trips", none, none⟩, ⟨"/orders", none, "orders", some "NOPE", none⟩,
      ⟨"/rides", none, "rides", none, none⟩]⟩
    have hdataset : Dataset.load Yaml.reader files "lake.yaml" = .ok d := by
      refine Dataset.load_eq_ok_iff.mpr ⟨_, rfl, ?_, by decide +kernel⟩
      dsimp only [Yaml.reader]
      repeat rw [← String.ofList_append]
      exact Yaml.ofText_ofList (by decide +kernel)
    have hloads : Launch.Loads ⟨"lake.yaml", none, none, none, .incremental, .text⟩ Yaml.reader
        files d .default none :=
      { dataset := hdataset
        providers := (ProviderConfig.load_eq_ok_iff Yaml.readsDefaults).mpr rfl
        catalog := rfl
        sourceFormat := ⟨ProviderConfig.builtIn "hudi", by decide +kernel⟩ }
    obtain ⟨hplace, hruns⟩ := (launch_reports_in_place _ Yaml.reader files
      (.empty : Registry Unit Unit) .empty).1 d .default none hloads
    obtain ⟨-, o, -, hanswer, -⟩ := hruns base .inOrder .inOrder
    obtain ⟨hlength, hrejected, hexecuted⟩ := hplace o
    exact ⟨_, o.services, o.targets, hanswer, hlength,
      hrejected 0 _ refused rfl (by decide +kernel),
      hexecuted 1 _ (request "trips" "/trips") rfl (by decide +kernel),
      hrejected 2 _ refused rfl (by decide +kernel),
      hexecuted 3 _ (request "rides" "/rides") rfl (by decide +kernel)⟩
  · have hnone : ¬∃ d c catalog, Launch.Loads
        ⟨"stream.yaml", none, none, none, .incremental, .text⟩ Yaml.reader files d c catalog := by
      rintro ⟨d, c, catalog, hd, hc, -, e, he⟩
      have hload : Dataset.load Yaml.reader files "stream.yaml" = .ok ⟨"PAIMON", [], []⟩ :=
        Dataset.load_eq_ok_iff.mpr ⟨_, rfl, by decide +kernel, by decide +kernel⟩
      cases hload.symm.trans hd
      cases (ProviderConfig.load_eq_ok_iff Yaml.readsDefaults).mp hc
      have hunknown : ProviderConfig.default.entry "PAIMON" =
          .error (ProviderConfig.default.unknown "PAIMON") := by decide +kernel
      cases hunknown.symm.trans he
    obtain ⟨hanswer, -, -, hcalls⟩ := (launch_reports_in_place _ Yaml.reader files
      (.empty : Registry Unit Unit) .empty).2 hnone (fun r => (base r).over) .inOrder .inOrder
    exact ⟨hanswer, hcalls⟩

end Lakehouse
