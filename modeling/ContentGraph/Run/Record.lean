import ContentGraph.Json.Value
import ContentGraph.Time

/-!
# Records of runs

A run is one pass of an extractor over its corpus. Its report counts what was done; its record
tells where it stands.
-/

namespace ContentGraph

/-- Where a run stands. -/
inductive RunStatus
  | idle
  | running
  | completed
  | failed
deriving Repr, DecidableEq

namespace RunStatus

/-- The written name of a status. -/
def name : RunStatus → String
  | .idle => "idle"
  | .running => "in_progress"
  | .completed => "completed"
  | .failed => "failed"

/-- Holds for the status of a run that is over. -/
def isTerminal : RunStatus → Bool
  | .completed => true
  | .failed => true
  | _ => false

end RunStatus

/-- What a run did. -/
structure RunReport where
  /-- Files that were found. -/
  totalFiles : Nat := 0
  /-- Files that were read, whether or not they held something to store. -/
  processedFiles : Nat := 0
  /-- Assets that were stored. -/
  extractedComponents : Nat := 0
  errors : List String := []
  /-- Milliseconds from start to end. -/
  duration : Nat := 0
deriving Repr, DecidableEq

/-- A report with a further error. -/
def RunReport.withError (message : String) (r : RunReport) : RunReport :=
  { r with errors := r.errors ++ [message] }

/-- A report as JSON. -/
def RunReport.toJson (r : RunReport) : Json := .ofFields [
  ("totalFiles", .ofNat r.totalFiles),
  ("processedFiles", .ofNat r.processedFiles),
  ("extractedComponents", .ofNat r.extractedComponents),
  ("errors", .ofStrings r.errors),
  ("duration", .ofNat r.duration)]

/-- How a run ended, and what it did. -/
structure RunOutcome where
  isCompleted : Bool
  report : RunReport
deriving Repr, DecidableEq

namespace RunOutcome

/-- The status of a run with this outcome. -/
def status (o : RunOutcome) : RunStatus := if o.isCompleted then .completed else .failed

/-- An outcome as JSON. -/
def toJson (o : RunOutcome) : Json := .ofFields [
  ("status", .string o.status.name),
  ("result", o.report.toJson)]

/-- The outcome of a run that was cancelled. -/
def cancelled : RunOutcome := ⟨false, { errors := ["Extraction cancelled"] }⟩

/-- Every outcome ends a run. -/
@[simp] theorem isTerminal_status (o : RunOutcome) : o.status.isTerminal = true := by
  unfold status
  cases o.isCompleted <;> rfl

end RunOutcome

/-- What is known about a run. -/
structure RunRecord where
  id : String
  platform : String
  status : RunStatus := .running
  startedAt : Millis
  /-- The time of the end, once the run is over. -/
  finishedAt : Option Millis := none
  /-- What was done, once the run is over. -/
  result : Option RunReport := none
deriving Repr, DecidableEq

namespace RunRecord

/-- Holds when the run is over. -/
def isFinished (r : RunRecord) : Bool := r.status.isTerminal

/-- The record of a run that ends. -/
def finish (outcome : RunOutcome) (now : Millis) (r : RunRecord) : RunRecord :=
  { r with status := outcome.status, finishedAt := some now, result := some outcome.report }

/-- A record as JSON; what belongs to the end is left out before it. -/
def toJson (r : RunRecord) : Json := .ofFields
  ([("id", .string r.id),
    ("platform", .string r.platform),
    ("status", .string r.status.name),
    ("startedAt", .string r.startedAt.iso)]
  ++ (r.finishedAt.map fun t => ("finishedAt", Json.string t.iso)).toList
  ++ (r.result.map fun report => ("result", report.toJson)).toList)

end RunRecord

end ContentGraph
