import ContentGraph.Run.Record

/-!
# The registry of runs

At most one run of each platform is in progress. Runs that are over are remembered for a while:
when a run starts, the oldest of its platform beyond the retention are forgotten.
-/

namespace ContentGraph

/-- The runs that are remembered, in the order in which they started. -/
structure Registry where
  /-- How many runs that are over stay of a platform when a further one starts. -/
  retention : Nat := 20
  records : List RunRecord := []
deriving Repr, DecidableEq

namespace Registry

/-- Why a run does not start: one of its platform is in progress. -/
structure Refusal where
  platform : String
  runId : String
deriving Repr, DecidableEq

/-- The wording of a refusal. -/
def Refusal.message (r : Refusal) : String :=
  "an extraction run is already in progress for " ++ r.platform ++ " (" ++ r.runId ++ ")"

/-- The record of a run that is remembered. -/
def find? (id : String) (r : Registry) : Option RunRecord := r.records.find? (·.id = id)

/-- Holds for the runs of a platform that are in progress. -/
def isActive (platform : String) (run : RunRecord) : Bool :=
  run.platform = platform && !run.isFinished

/-- The run of a platform that is in progress. -/
def active? (platform : String) (r : Registry) : Option RunRecord :=
  r.records.find? (isActive platform)

/-- Holds for the runs of a platform that are over. -/
def isPast (platform : String) (run : RunRecord) : Bool :=
  run.platform = platform && run.isFinished

/-- Forgets the first `excess` runs of a platform that are over. -/
def forget (platform : String) : Nat → List RunRecord → List RunRecord
  | 0, runs => runs
  | _, [] => []
  | excess + 1, run :: runs =>
    if isPast platform run then forget platform excess runs
    else run :: forget platform (excess + 1) runs

/-- Forgets the oldest runs of a platform that are over, beyond the retention. -/
def evict (platform : String) (r : Registry) : Registry :=
  { r with records :=
      forget platform ((r.records.countP (isPast platform)) - r.retention) r.records }

/-- Starts a run of a platform under a new id, unless one is in progress. -/
def dispatch (id platform : String) (now : Millis) (r : Registry) :
    Except Refusal Unit × Registry :=
  match r.active? platform with
  | some run => (.error ⟨platform, run.id⟩, r)
  | none =>
    let r := r.evict platform
    (.ok (), { r with records := r.records ++ [{ id, platform, startedAt := now }] })

/-- Ends a run, unless it is over. -/
def finish (id : String) (outcome : RunOutcome) (now : Millis) (r : Registry) : Registry :=
  { r with records := r.records.map fun run =>
      if run.id = id ∧ run.isFinished = false then run.finish outcome now else run }

/-- Ends a run as cancelled, unless it is over. -/
def cancel (id : String) (now : Millis) (r : Registry) : Registry := r.finish id .cancelled now

end Registry

/-! ## Waiting -/

/-- Someone who waits for the end of a run. The run is looked up, watched until it is over, and
looked up once more; in between, other things may happen to the registry. -/
inductive Waiter
  | looking (id : String)
  | watching (id : String)
  | reading (id : String)
  | answered (record : Option RunRecord)
deriving Repr, DecidableEq

/-- The next step of a waiter. One who watches wakes when the run is over; a run that is no longer
remembered is over. -/
def Waiter.step (r : Registry) : Waiter → Waiter
  | .looking id => if (r.find? id).isSome then .watching id else .answered none
  | .watching id => if (r.find? id).all (·.isFinished) then .reading id else .watching id
  | .reading id => .answered (r.find? id)
  | .answered record => .answered record

end ContentGraph
