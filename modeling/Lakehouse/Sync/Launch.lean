import Lakehouse.CommandLine
import Lakehouse.Config.Files
import Lakehouse.Sync.Batch
import Lakehouse.Sync.Registry

/-!
# Launching a run

The arguments of a run name its documents. Once all of them are loaded and the source format is
known, the registry is configured and every table of the dataset is an entry. The tables with a
proper request are run as a batch. The reports on the others are kept with their positions and put
back among those on the batch.

* `Launch.prepare` — the documents, or why there is no run.
* `Launch.report` — the report on all tables, from the report on the batch.
* `Launch.run` — the run.
* `Arguments.launch` — what arguments come to: a run, or why there is none.

Model of `run`. Left out: logging, and the identifier and the starting time of a report. What a
provider does once it is found is up to the services.
-/

namespace Lakehouse

/-- Why nothing can be run. -/
inductive LaunchProblem where
  | dataset (path : String) (f : Fault)
  | providers (f : Fault)
  | catalog (f : Fault)
  | sourceFormat (f : Fault)
  deriving DecidableEq

/-- The words for a problem. -/
def LaunchProblem.message : LaunchProblem → String
  | dataset path _ => s!"loading dataset config {path}"
  | providers _ => "loading converters config"
  | catalog _ => "loading catalog config"
  | sourceFormat f => f.text

/-- A run that can begin. -/
structure Launch where
  providers : ProviderConfig
  storage : Option String
  entries : List BatchEntry

namespace Launch

/-- The entry for a table of a dataset. -/
def entry (d : Dataset) (catalog : Option Catalog) (mode : SyncMode) (t : DatasetTable) :
    BatchEntry :=
  (d.request catalog mode t).mapError (.aborted t.basePath t.name)

/-- Loads the documents that arguments name. -/
def prepare (a : Arguments) (reader : DocumentReader) (files : FileSystem) :
    Except LaunchProblem Launch := do
  let dataset ← (Dataset.load reader files a.dataset).mapError (.dataset a.dataset)
  let providers ← (ProviderConfig.load reader files a.providers).mapError .providers
  let catalog ← (Catalog.load reader files a.catalog).mapError .catalog
  let _ ← (providers.entry dataset.sourceFormat).mapError .sourceFormat
  return ⟨providers, a.storage, dataset.tables.map (entry dataset catalog a.mode)⟩

/-- The requests that are run. -/
def requests (l : Launch) : List SyncRequest := l.entries.filterMap Except.toOption

/-- The reports on the entries without a request, with their positions from `i` on. -/
def rejectedFrom (i : Nat) (entries : List BatchEntry) : List (Nat × TableReport) :=
  (entries.zipIdx i).filterMap fun
    | (.error report, j) => some (j, report)
    | (.ok _, _) => none

/-- The reports for `n` positions from `i` on: the next rejected one where its position is reached,
and the next executed one elsewhere. -/
def putBack : Nat → Nat → List (Nat × TableReport) → List TableReport → List TableReport
  | 0, _, _, _ => []
  | n + 1, i, rejected, executed =>
    match rejected.head?.filter fun w => w.1 = i with
    | some (_, report) => report :: putBack n (i + 1) rejected.tail executed
    | none => executed.head?.toList ++ putBack n (i + 1) rejected executed.tail

/-- The report on all entries, from the report on those that were run. -/
def report (l : Launch) (executed : Report) : Report :=
  ⟨putBack l.entries.length 0 (rejectedFrom 0 l.entries) executed.tables⟩

variable {σ τ : Type}

/-- The registry that a run leaves behind. -/
def registry (l : Launch) (r : Registry σ τ) : Registry σ τ := r.configure l.providers l.storage

/-- Runs all requests, with services that may depend on the configured registry, and reports on all
entries. -/
def run (l : Launch) (r : Registry σ τ)
    (services : Registry σ τ → CheckpointStore → Services) (tables targets : Schedule)
    (store : CheckpointStore) : Batch :=
  let b := Batch.run (services (l.registry r)) tables targets store (l.requests.map .ok)
  let reports := (l.report (b.report l.requests.length)).tables
  { b with reports := reports.zipIdx.map Prod.swap }

end Launch

/-- What arguments have come to. -/
structure Launched (σ τ : Type) where
  registry : Registry σ τ
  store : CheckpointStore
  calls : List Call
  answer : Except LaunchProblem Report

/-- Runs what arguments ask for, with a registry and a checkpoint store. -/
def Arguments.launch {σ τ : Type} (a : Arguments) (reader : DocumentReader) (files : FileSystem)
    (r : Registry σ τ) (services : Registry σ τ → CheckpointStore → Services)
    (tables targets : Schedule) (store : CheckpointStore) : Launched σ τ :=
  match Launch.prepare a reader files with
  | .error p => ⟨r, store, [], .error p⟩
  | .ok l =>
    let b := l.run r services tables targets store
    ⟨l.registry r, b.store, b.calls, .ok (b.report l.entries.length)⟩

end Lakehouse
