import Lakehouse.Sync.Services

/-!
# Runs

A run is a list of calls together with a value, or with what stopped it short of one. Runs are put
together one after the other: the calls of the later follow those of the earlier, and nothing comes
after a run that was stopped.

* `Run.ask` — a call whose answer decides how to go on. A fatal fault and a crash stop the run; any
  other fault is an answer like the rest.
* `Run.tell` — a call that stops nothing.

Stands for the awaited calls of `ConversionController::sync` and the question marks behind them.
-/

namespace Lakehouse

/-- Calls, and the value or the stop they lead to. -/
structure Run (α : Type) where
  calls : List Call
  value : Except Halt α

namespace Run

variable {α β : Type}

/-- A value without calls. -/
def done (a : α) : Run α := ⟨[], .ok a⟩

/-- One run, and then the one that its value asks for. -/
def andThen (r : Run α) (next : α → Run β) : Run β :=
  match r.value with
  | .ok a =>
    let rest := next a
    ⟨r.calls ++ rest.calls, rest.value⟩
  | .error h => ⟨r.calls, .error h⟩

instance : Monad Run where
  pure := done
  bind := andThen

/-- Stops at a fault. -/
def require (answer : Except Fault α) : Run α := ⟨[], answer.mapError .fault⟩

/-- A call, with its answer. -/
def tell (call : Call) (answer : α) : Run α := ⟨[call], .ok answer⟩

/-- What an answer means for a run: a value to go on with, or a stop. -/
def goOn : Except Halt α → Except Halt (Except Fault α)
  | .ok a => .ok (.ok a)
  | .error (.fault f) => if f.isFatal then .error (.fault f) else .ok (.error f)
  | .error (.crash text) => .error (.crash text)

/-- A call, with its answer, which a fatal fault and a crash stop. -/
def ask (call : Call) (answer : Except Halt α) : Run (Except Fault α) := ⟨[call], goOn answer⟩

/-- A run of one value after another. -/
def each (f : α → Run β) : List α → Run (List β)
  | [] => pure []
  | a :: as => do
    let b ← f a
    let bs ← each f as
    return b :: bs

end Run

end Lakehouse
