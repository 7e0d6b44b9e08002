import ContentGraph.Run.Record
import ContentGraph.Run.Routine

/-!
# A pass over a corpus

Every file is extracted from and its asset is stored; then the import edges of each stored asset
are replaced by those whose target was stored in the same pass; last the ledger is updated. A file
or an edge that fails is logged and passed over. A pass fails when its files cannot be listed or
the ledger cannot be updated.
-/

namespace ContentGraph.Pass

open Discovery (Candidate)

/-- How far a pass has come: its report so far, and the ids and links of the assets that it has
stored. -/
structure Progress where
  report : RunReport := {}
  stored : List (String × List String) := []
deriving Repr, DecidableEq

/-- Holds when an asset has been stored. -/
def Progress.hasStored (p : Progress) (id : String) : Bool := p.stored.any (·.1 == id)

/-- Logs an error and adds it to the report. An error that cannot be logged is only reported. -/
def noteError (platform message : String) (r : RunReport) : Routine RunReport := do
  let _ ← Routine.make (.logError platform message)
  return r.withError message

/-- The wording for a file that fails. -/
def fileError (file : Candidate) (cause : String) : String :=
  "Error processing " ++ file.relative ++ ": " ++ cause

/-- The wording for an edge that cannot be added. -/
def linkError (origin target cause : String) : String :=
  "Error linking " ++ origin ++ " -> " ++ target ++ ": " ++ cause

/-- The wording for edges that cannot be taken away. -/
def clearError (origin cause : String) : String := "Error linking " ++ origin ++ ": " ++ cause

/-- The wording for a pass that fails. -/
def failure (cause : String) : String := "Extraction failed: " ++ cause

/-- Extracts from one file and stores its asset. -/
def processFile (platform : String) (p : Progress) (file : Candidate) : Routine Progress := do
  match ← Routine.extractFrom file with
  | .error e =>
    return { p with report := ← noteError platform (fileError file e.message) p.report }
  | .ok none =>
    return { p with report.processedFiles := p.report.processedFiles + 1 }
  | .ok (some x) =>
    match ← Routine.make (.ingest x.asset) with
    | .error e =>
      return { p with report := ← noteError platform (fileError file e.message) p.report }
    | .ok () =>
      return {
        report := { p.report with
          processedFiles := p.report.processedFiles + 1
          extractedComponents := p.report.extractedComponents + 1 }
        stored := p.stored ++ [(x.asset.id, x.links)] }

/-- Adds an import edge. -/
def linkTo (platform origin : String) (r : RunReport) (target : String) : Routine RunReport := do
  match ← Routine.make (.relate ⟨origin, target, importKind⟩) with
  | .ok () => return r
  | .error e => noteError platform (linkError origin target e.message) r

/-- Replaces the import edges of an asset by those to assets that have been stored. -/
def linkFrom (platform : String) (hasStored : String → Bool) (r : RunReport)
    (entry : String × List String) : Routine RunReport := do
  match ← Routine.make (.clear entry.1 importKind) with
  | .ok () => (entry.2.filter hasStored).foldlM (linkTo platform entry.1) r
  | .error e => noteError platform (clearError entry.1 e.message) r

/-- The milliseconds between two readings of the clock. -/
def elapsed (started now : Millis) : Nat := (now - started).toNat

/-- The outcome of a pass that fails. -/
def failed (started now : Millis) (cause : String) (r : RunReport) : RunOutcome :=
  ⟨false, { r.withError (failure cause) with duration := elapsed started now }⟩

/-- What the ledger tells about a pass. -/
def ledgerFields (now : Millis) (r : RunReport) : Fields := .ofList [
  ("lastExtraction", .string now.iso),
  ("totalFiles", .ofNat r.totalFiles),
  ("processedFiles", .ofNat r.processedFiles),
  ("extractedComponents", .ofNat r.extractedComponents),
  ("errors", .ofNat r.errors.length),
  ("duration", .ofNat r.duration)]

/-- Updates the ledger at the end of a pass. -/
def close (platform : String) (started : Millis) (r : RunReport) : Routine RunOutcome := do
  let now ← Routine.readClock
  let r := { r with duration := elapsed started now }
  match ← Routine.make (.record platform (ledgerFields now r)) with
  | .ok () => return ⟨true, r⟩
  | .error e => return failed started (← Routine.readClock) e.message r

/-- A pass over the corpus of a platform. -/
def routine (platform : String) : Routine RunOutcome := do
  let started ← Routine.readClock
  match ← Routine.listFiles with
  | .error e => return failed started (← Routine.readClock) e.message {}
  | .ok files =>
    let p ← files.foldlM (processFile platform) { report.totalFiles := files.length }
    let report ← p.stored.foldlM (linkFrom platform p.hasStored) p.report
    close platform started report

end ContentGraph.Pass
