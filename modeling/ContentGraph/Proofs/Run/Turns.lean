import ContentGraph.Proofs.Run.Transcript
import ContentGraph.Run.Pass

/-!
# The turns of a pass

All that a pass can ask for and be answered, turn by turn: a file (`FileTurn`), an edge
(`LinkTurn`), the edges of an asset (`OriginTurn`), the end (`CloseTurn`) and the pass as a whole
(`PassCourse`). Each part of a pass that yields over a transcript has taken one of these turns;
what a pass keeps is shown for the turns.
-/

namespace ContentGraph

open Discovery (Candidate)
open Routine (Yields)

namespace Pass

variable {platform : String}

/-- Noting an error asks to log it, and adds it whatever the answer is. -/
theorem yields_noteError {message : String} {r r' : RunReport} {T : Transcript}
    (h : Yields (noteError platform message r) T r') :
    ∃ now o, T = [.changed now (.logError platform message) o] ∧ r' = r.withError message := by
  obtain ⟨T₁, T₂, o, rfl, hmake, hrest⟩ := h.andThen
  obtain ⟨rfl, rfl⟩ := hrest.of_pure
  obtain ⟨now, rfl⟩ := hmake.of_make
  exact ⟨now, o, rfl, rfl⟩

/-! ## Files -/

/-- The turns of a file: it cannot be read, it holds nothing to store, its asset cannot be stored,
or its asset is stored. -/
inductive FileTurn (platform : String) (p : Progress) (file : Candidate) :
    Transcript → Progress → Prop
  | unread {e now o} : FileTurn platform p file
      [.extracted file (.error e), .changed now (.logError platform (fileError file e.message)) o]
      { p with report := p.report.withError (fileError file e.message) }
  | empty : FileTurn platform p file [.extracted file (.ok none)]
      { p with report.processedFiles := p.report.processedFiles + 1 }
  | unstored {x t e now o} : FileTurn platform p file
      [.extracted file (.ok (some x)), .changed t (.ingest x.asset) (.error e),
        .changed now (.logError platform (fileError file e.message)) o]
      { p with report := p.report.withError (fileError file e.message) }
  | stored {x t} : FileTurn platform p file
      [.extracted file (.ok (some x)), .changed t (.ingest x.asset) (.ok ())]
      { report := { p.report with
          processedFiles := p.report.processedFiles + 1
          extractedComponents := p.report.extractedComponents + 1 }
        stored := p.stored ++ [(x.asset.id, x.links)] }

/-- An error that ends the turn of a file. -/
private theorem yields_fileError {p p' : Progress} {message : String} {T : Transcript}
    (h : Yields (do return { p with report := ← noteError platform message p.report }) T p') :
    ∃ now o, T = [.changed now (.logError platform message) o]
      ∧ p' = { p with report := p.report.withError message } := by
  obtain ⟨T₁, T₂, r, rfl, hnote, hrest⟩ := h.andThen
  obtain ⟨rfl, rfl⟩ := hrest.of_pure
  obtain ⟨now, o, rfl, rfl⟩ := yields_noteError hnote
  exact ⟨now, o, rfl, rfl⟩

theorem yields_processFile {p p' : Progress} {file : Candidate} {T : Transcript}
    (h : Yields (processFile platform p file) T p') : FileTurn platform p file T p' := by
  obtain ⟨T₁, T₂, outcome, rfl, hextract, hrest⟩ := h.andThen
  obtain rfl := hextract.of_extractFrom
  match outcome with
  | .error e =>
      obtain ⟨now, o, rfl, rfl⟩ := yields_fileError hrest
      exact .unread
  | .ok none =>
      obtain ⟨rfl, rfl⟩ := hrest.of_pure
      exact .empty
  | .ok (some x) =>
      obtain ⟨T₃, T₄, r, rfl, hmake, hafter⟩ := hrest.andThen
      obtain ⟨t, rfl⟩ := hmake.of_make
      match r with
      | .error e =>
          obtain ⟨now, o, rfl, rfl⟩ := yields_fileError hafter
          exact .unstored
      | .ok () =>
          obtain ⟨rfl, rfl⟩ := hafter.of_pure
          exact .stored

/-! ## Edges -/

/-- The turns of an edge: it is added or it cannot be added. -/
inductive LinkTurn (platform origin : String) (r : RunReport) (target : String) :
    Transcript → RunReport → Prop
  | linked {t} : LinkTurn platform origin r target
      [.changed t (.relate ⟨origin, target, importKind⟩) (.ok ())] r
  | unlinked {t e now o} : LinkTurn platform origin r target
      [.changed t (.relate ⟨origin, target, importKind⟩) (.error e),
        .changed now (.logError platform (linkError origin target e.message)) o]
      (r.withError (linkError origin target e.message))

theorem yields_linkTo {origin target : String} {r r' : RunReport} {T : Transcript}
    (h : Yields (linkTo platform origin r target) T r') :
    LinkTurn platform origin r target T r' := by
  obtain ⟨T₁, T₂, o, rfl, hmake, hrest⟩ := h.andThen
  obtain ⟨t, rfl⟩ := hmake.of_make
  match o with
  | .ok () =>
      obtain ⟨rfl, rfl⟩ := hrest.of_pure
      exact .linked
  | .error e =>
      obtain ⟨now, o, rfl, rfl⟩ := yields_noteError hrest
      exact .unlinked

/-- The turns of the edges of an asset: the old ones cannot be taken away, or they are and the new
ones have their turns. -/
inductive OriginTurn (platform : String) (hasStored : String → Bool) (r : RunReport)
    (entry : String × List String) : Transcript → RunReport → Prop
  | uncleared {t e now o} : OriginTurn platform hasStored r entry
      [.changed t (.clear entry.1 importKind) (.error e),
        .changed now (.logError platform (clearError entry.1 e.message)) o]
      (r.withError (clearError entry.1 e.message))
  | cleared {t T r'}
      (links : Yields ((entry.2.filter hasStored).foldlM (linkTo platform entry.1) r) T r') :
      OriginTurn platform hasStored r entry
        (.changed t (.clear entry.1 importKind) (.ok ()) :: T) r'

theorem yields_linkFrom {hasStored : String → Bool} {entry : String × List String}
    {r r' : RunReport} {T : Transcript} (h : Yields (linkFrom platform hasStored r entry) T r') :
    OriginTurn platform hasStored r entry T r' := by
  obtain ⟨T₁, T₂, o, rfl, hmake, hrest⟩ := h.andThen
  obtain ⟨t, rfl⟩ := hmake.of_make
  match o with
  | .ok () => exact .cleared hrest
  | .error e =>
      obtain ⟨now, o, rfl, rfl⟩ := yields_noteError hrest
      exact .uncleared

/-! ## Passes -/

/-- The turns of the end: the ledger is updated or it cannot be updated. -/
inductive CloseTurn (platform : String) (started : Millis) (r : RunReport) :
    Transcript → RunOutcome → Prop
  | recorded {now t} : CloseTurn platform started r
      [.read now, .changed t (.record platform
        (ledgerFields now { r with duration := elapsed started now })) (.ok ())]
      ⟨true, { r with duration := elapsed started now }⟩
  | unrecorded {now t e t'} : CloseTurn platform started r
      [.read now, .changed t (.record platform
        (ledgerFields now { r with duration := elapsed started now })) (.error e), .read t']
      (failed started t' e.message { r with duration := elapsed started now })

theorem yields_close {started : Millis} {r : RunReport} {outcome : RunOutcome} {T : Transcript}
    (h : Yields (close platform started r) T outcome) :
    CloseTurn platform started r T outcome := by
  obtain ⟨T₁, T₂, now, rfl, hread, hrest⟩ := h.andThen
  obtain rfl := hread.of_readClock
  obtain ⟨T₃, T₄, o, rfl, hmake, hafter⟩ := hrest.andThen
  obtain ⟨t, rfl⟩ := hmake.of_make
  match o with
  | .ok () =>
      obtain ⟨rfl, rfl⟩ := hafter.of_pure
      exact .recorded
  | .error e =>
      obtain ⟨T₅, T₆, t', rfl, hread', hlast⟩ := hafter.andThen
      obtain ⟨rfl, rfl⟩ := hlast.of_pure
      obtain rfl := hread'.of_readClock
      exact .unrecorded

/-- The courses of a pass: its files cannot be listed, or they have their turns, then the edges
have theirs, and then comes the end. -/
inductive PassCourse (platform : String) : Transcript → RunOutcome → Prop
  | unlisted {started e now} : PassCourse platform
      [.read started, .listed (.error e), .read now] (failed started now e.message {})
  | listed {started files T₁ p T₂ r T₃ outcome}
      (turns : Yields (files.foldlM (processFile platform) { report.totalFiles := files.length })
        T₁ p)
      (links : Yields (p.stored.foldlM (linkFrom platform p.hasStored) p.report) T₂ r)
      (last : CloseTurn platform started r T₃ outcome) :
      PassCourse platform (.read started :: .listed (.ok files) :: (T₁ ++ (T₂ ++ T₃))) outcome

/-- **Courses.** Every pass takes one of its courses. -/
theorem yields_routine {outcome : RunOutcome} {T : Transcript}
    (h : Yields (routine platform) T outcome) : PassCourse platform T outcome := by
  obtain ⟨T₁, T₂, started, rfl, hread, hrest⟩ := h.andThen
  obtain rfl := hread.of_readClock
  obtain ⟨T₃, T₄, listing, rfl, hlist, hafter⟩ := hrest.andThen
  obtain rfl := hlist.of_listFiles
  match listing with
  | .error e =>
      obtain ⟨T₅, T₆, now, rfl, hread', hlast⟩ := hafter.andThen
      obtain ⟨rfl, rfl⟩ := hlast.of_pure
      obtain rfl := hread'.of_readClock
      exact .unlisted
  | .ok files =>
      obtain ⟨T₅, T₆, p, rfl, hturns, hlinked⟩ := hafter.andThen
      obtain ⟨T₇, T₈, r, rfl, hlinks, hclose⟩ := hlinked.andThen
      show PassCourse platform (.read started :: .listed (.ok files) :: (T₅ ++ (T₇ ++ T₈))) _
      exact .listed hturns hlinks (yields_close hclose)

end Pass

end ContentGraph
