import ContentGraph.Run.Pass
import ContentGraph.Run.Registry

/-!
# Runs in the background

A dispatcher starts passes and lets them go on when there is time for them. A pass may stand at a
gate, where each extraction takes one permit.
-/

namespace ContentGraph

/-- A run in progress and what remains of it. -/
structure Job where
  id : String
  source : Extractor
  routine : Routine RunOutcome
  /-- How many files may be extracted from; with no gate there is no bound. -/
  permits : Option Nat := none

/-- The registry and the runs in progress. -/
structure Dispatcher where
  registry : Registry := {}
  jobs : List Job := []

namespace Dispatcher

/-- Starts a run of an extractor under a new id; it makes no progress yet. -/
def dispatch (id : String) (source : Extractor) (permits : Option Nat) (now : Millis)
    (d : Dispatcher) : Except Registry.Refusal Dispatcher :=
  match d.registry.dispatch id source.platform now with
  | (.error refusal, _) => .error refusal
  | (.ok (), registry) =>
    .ok { registry, jobs := d.jobs ++ [⟨id, source, Pass.routine source.platform, permits⟩] }

/-- Lets more files be extracted from. -/
def grant (id : String) (permits : Nat) (d : Dispatcher) : Dispatcher :=
  { d with jobs := d.jobs.map fun job =>
      if job.id = id then { job with permits := job.permits.map (· + permits) } else job }

/-- Ends a run as cancelled, unless it is over; it makes no further progress. -/
def cancel (id : String) (now : Millis) (d : Dispatcher) : Dispatcher where
  registry := d.registry.cancel id now
  jobs := d.jobs.filter (·.id ≠ id)

variable {σ : Type} [Store.Backend σ]

/-- Lets a run go on until it is over or stands at its gate. -/
def resume (tree : FileTree) (now : Millis) (d : Dispatcher) (s : σ) (job : Job) :
    Dispatcher × σ :=
  let ((routine, permits), s) := job.routine.proceed job.source tree now job.permits s
  match routine with
  | .done outcome => ({ d with registry := d.registry.finish job.id outcome now }, s)
  | routine => ({ d with jobs := d.jobs ++ [{ job with routine, permits }] }, s)

/-- Lets every run go on, the one that started first before the others. -/
def advance (tree : FileTree) (now : Millis) (d : Dispatcher) (s : σ) : Dispatcher × σ :=
  d.jobs.foldl (fun (d, s) job => resume tree now d s job) ({ d with jobs := [] }, s)

/-- Lets every run go on, for the sake of one that is waited for, and tells its record. -/
def wait (tree : FileTree) (now : Millis) (id : String) (d : Dispatcher) (s : σ) :
    Option RunRecord × Dispatcher × σ :=
  match d.registry.find? id with
  | none => (none, d, s)
  | some record =>
    if record.isFinished then (some record, d, s)
    else
      let (d, s) := d.advance tree now s
      (d.registry.find? id, d, s)

end Dispatcher

end ContentGraph
