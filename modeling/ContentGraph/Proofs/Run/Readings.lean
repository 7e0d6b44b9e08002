import ContentGraph.Proofs.Asset.Undated
import ContentGraph.Proofs.Run.Accounting
import ContentGraph.Proofs.Run.Contents
import ContentGraph.Proofs.Run.Prefixes
import Mathlib.Data.List.Basic

/-!
# What a pass makes of what it reads

An extractor answers a pass with the files of its corpus and with a reading of each. Main statement:
where no change fails, these answers alone, without their dates, decide what a pass reports, what it
stores and links, what it logs, and that it writes the ledger once at most
(`PassCourse.faultless`).
-/

namespace ContentGraph

open Discovery (Candidate)
open Routine (Yields)
open Store (Change)

/-- What a pass remembers of an extraction: the id of its asset, and its links. -/
def Extraction.entry (x : Extraction) : String × List String := (x.asset.id, x.links)

/-- A file with what was extracted from it. -/
abbrev Reading := Candidate × Except SourceFault (Option Extraction)

namespace Reading

/-- A reading without the time of extraction. -/
def undated (q : Reading) : Reading := (q.1, q.2.map (Option.map Extraction.undated))

/-- What a reading yields. -/
def extraction? (q : Reading) : Option Extraction :=
  match q.2 with
  | .ok x => x
  | .error _ => none

theorem extraction?_undated (q : Reading) :
    q.undated.extraction? = q.extraction?.map Extraction.undated := by
  obtain ⟨file, _ | _ | _⟩ := q <;> rfl

end Reading

namespace Exchange

/-- A file that was extracted from. -/
def reading? : Exchange → Option Reading
  | .extracted file outcome => some (file, outcome)
  | _ => none

/-- What an extractor answered, without the time of extraction. -/
def answer? : Exchange → Option Exchange
  | .listed files => some (.listed files)
  | .extracted file outcome => some (.extracted file (outcome.map (Option.map Extraction.undated)))
  | _ => none

end Exchange

namespace Transcript

variable {T T' : Transcript}

/-- The files that were extracted from. -/
def readings (T : Transcript) : List Reading := T.filterMap Exchange.reading?

/-- What an extractor answered, without the times of extraction. -/
def answers (T : Transcript) : Transcript := T.filterMap Exchange.answer?

@[simp] theorem readings_append (T T' : Transcript) :
    readings (T ++ T') = readings T ++ readings T' := List.filterMap_append

@[simp] theorem answers_append (T T' : Transcript) : answers (T ++ T') = answers T ++ answers T' :=
  List.filterMap_append

theorem extractions_eq (T : Transcript) : T.extractions = T.readings.filterMap Reading.extraction? := by
  unfold extractions readings
  rw [List.filterMap_filterMap]
  refine List.filterMap_congr fun x _ => ?_
  match x with
  | .read _ => rfl
  | .listed _ => rfl
  | .extracted _ (.ok _) => rfl
  | .extracted _ (.error _) => rfl
  | .changed _ _ _ => rfl

theorem readings_answers (T : Transcript) : T.answers.readings = T.readings.map Reading.undated := by
  unfold readings answers
  rw [List.filterMap_filterMap, List.map_filterMap]
  refine List.filterMap_congr fun x _ => ?_
  cases x <;> rfl

/-- Where the answers are the same, the same is extracted. -/
theorem extractions_undated (h : T.answers = T'.answers) :
    T.extractions.map Extraction.undated = T'.extractions.map Extraction.undated := by
  have hreadings := congrArg readings h
  rw [readings_answers, readings_answers] at hreadings
  have hundated (T : Transcript) : T.extractions.map Extraction.undated
      = (T.readings.map Reading.undated).filterMap Reading.extraction? := by
    rw [extractions_eq, List.map_filterMap, List.filterMap_map]
    exact List.filterMap_congr fun q _ => (Reading.extraction?_undated q).symm
  rw [hundated, hundated, hreadings]

theorem entries_eq (h : T.answers = T'.answers) :
    T.extractions.map Extraction.entry = T'.extractions.map Extraction.entry := by
  have hundated := congrArg (List.map Extraction.entry) (extractions_undated h)
  rwa [List.map_map, List.map_map] at hundated

end Transcript

/-! ## Reports -/

/-- A report with one more reading. -/
def RunReport.note (r : RunReport) (q : Reading) : RunReport :=
  match q.2 with
  | .error e => r.withError (Pass.fileError q.1 e.message)
  | .ok none => { r with processedFiles := r.processedFiles + 1 }
  | .ok (some _) => { r with
      processedFiles := r.processedFiles + 1
      extractedComponents := r.extractedComponents + 1 }

/-- A report counts readings whatever their dates are. -/
theorem RunReport.note_undated (r : RunReport) (q : Reading) : r.note q.undated = r.note q := by
  obtain ⟨file, _ | _ | _⟩ := q <;> rfl

theorem RunReport.duration_foldl_note (readings : List Reading) (r : RunReport) :
    (readings.foldl note r).duration = r.duration := by
  induction readings generalizing r with
  | nil => rfl
  | cons q readings ih =>
      rw [List.foldl_cons, ih]
      obtain ⟨file, _ | _ | _⟩ := q <;> rfl

/-- An outcome without the time that it took. -/
def RunOutcome.untimed (o : RunOutcome) : RunOutcome := { o with report := { o.report with duration := 0 } }

namespace Pass

variable {platform : String} {listing listing' : Except Discovery.Fault (List Candidate)}
  {T T' : Transcript} {o o' : RunOutcome}

/-- The outcome of a pass, but for its time, when no change fails. -/
def outcomeOf (listing : Except Discovery.Fault (List Candidate)) (readings : List Reading) :
    RunOutcome :=
  match listing with
  | .error e => ⟨false, ({} : RunReport).withError (failure e.message)⟩
  | .ok files => ⟨true, readings.foldl RunReport.note { totalFiles := files.length }⟩

theorem outcomeOf_undated (listing : Except Discovery.Fault (List Candidate))
    (readings : List Reading) :
    outcomeOf listing (readings.map Reading.undated) = outcomeOf listing readings := by
  unfold outcomeOf
  cases listing with
  | error e => rfl
  | ok files =>
      simp only [List.foldl_map, RunReport.note_undated]

/-! ## Files -/

/-- Where no change fails, each file is read and its reading is noted. -/
theorem notes_of_files {files : List Candidate} {p p' : Progress}
    (h : Yields (files.foldlM (processFile platform) p) T p') (hT : T.NoFault) :
    T.readings.map (·.1) = files ∧ p'.report = T.readings.foldl RunReport.note p.report := by
  refine Yields.foldlM_induction (P := fun seen T p' => T.NoFault → T.readings.map (·.1) = seen
    ∧ p'.report = T.readings.foldl RunReport.note p.report) (fun _ => ⟨rfl, rfl⟩) ?_ h hT
  intro seen file T T' b b' hb hturn hT
  obtain ⟨hseen, hreport⟩ := hb hT.left
  rw [Transcript.readings_append, List.map_append, List.foldl_append, hseen, ← hreport]
  cases yields_processFile hturn with
  | unread => exact ⟨rfl, rfl⟩
  | empty => exact ⟨rfl, rfl⟩
  | unstored => exact absurd (List.mem_cons_of_mem _ List.mem_cons_self) (hT.right _ _ _)
  | stored => exact ⟨rfl, rfl⟩

/-- Files ask for their extraction and for changes, but never to list. -/
theorem answers_of_files {files : List Candidate} {p p' : Progress}
    (h : Yields (files.foldlM (processFile platform) p) T p') :
    T.answers = T.readings.map fun q => .extracted q.1 q.undated.2 := by
  have hnone : ∀ x ∈ T, x.answer? = (x.reading?.map fun q => .extracted q.1 q.undated.2) := by
    intro x hx
    obtain ⟨file, -, outcome, -, rfl | hstep⟩ := steps_of_files h hx
    · rfl
    · cases hstep <;> rfl
  unfold Transcript.answers Transcript.readings
  rw [List.map_filterMap]
  exact List.filterMap_congr hnone

/-- Behind the files nothing is asked of the extractor. -/
theorem unanswered_of_links {holds : String → Bool} {entries : List (String × List String)}
    {r r' : RunReport} (h : Yields (entries.foldlM (linkFrom platform holds) r) T r') :
    T.readings = [] ∧ T.answers = [] := by
  constructor
  · refine List.filterMap_eq_nil_iff.2 fun x hx => ?_
    cases steps_of_links h x hx <;> rfl
  · refine List.filterMap_eq_nil_iff.2 fun x hx => ?_
    cases steps_of_links h x hx <;> rfl

/-! ## Passes -/

/-- What a pass in which no change fails makes of a listing and of what it reads. -/
structure Faultless (platform : String) (listing : Except Discovery.Fault (List Candidate))
    (T : Transcript) (o : RunOutcome) : Prop where
  answers : T.answers = .listed listing :: T.readings.map fun q => .extracted q.1 q.undated.2
  /-- Every file that is listed is read once, in order. -/
  files : T.readings.map (·.1) = listing.toOption.getD []
  outcome : o.untimed = outcomeOf listing T.readings
  ingests : T.ingests.map (·.2) = T.extractions.map (·.asset)
  edges : ∀ k, replay edgeEffect T.made k = (T.extractions.map Extraction.entry).foldl
    (relink fun id => (T.extractions.map Extraction.entry).any (·.1 == id)) k
  keeps : T.Keeps
  messages : T.logged.map (·.message) = if o.isCompleted then o.report.errors else []
  logged : ∀ e ∈ T.logged, e.platform = platform
  /-- The last change of a pass that completes is that of the ledger, and there is no other. -/
  recorded : o.isCompleted = true → ∃ (front : Transcript) (t now : Millis),
    T = front ++ [.changed t (.record platform (ledgerFields now o.report)) (.ok ())]
      ∧ ∀ q ∈ front.made, q.2.isRecord = false
  unrecorded : o.isCompleted = false → T.made = []

/-- A pass whose files cannot be listed. -/
theorem faultless_unlisted (platform : String) (started now : Millis) (e : Discovery.Fault) :
    Faultless platform (.error e) [.read started, .listed (.error e), .read now]
      (failed started now e.message {}) where
  answers := rfl
  files := rfl
  outcome := rfl
  ingests := rfl
  edges _ := rfl
  keeps := Transcript.keeps_nil
  messages := rfl
  logged _ h := absurd h List.not_mem_nil
  recorded := nofun
  unrecorded _ := rfl

/-- A pass that completes, with the answers that it got. -/
theorem Done.faultless {files : List Candidate} {r : RunReport} {duration : Nat}
    {stored : List (String × List String)} (h : Done platform T { r with duration } stored)
    (hanswers : T.answers = .listed (.ok files) :: T.readings.map fun q => .extracted q.1 q.undated.2)
    (hfiles : T.readings.map (·.1) = files)
    (hreport : r = T.readings.foldl RunReport.note { totalFiles := files.length })
    (hrecorded : ∃ (front : Transcript) (t now : Millis),
      T = front ++ [.changed t (.record platform (ledgerFields now { r with duration })) (.ok ())]
        ∧ ∀ q ∈ front.made, q.2.isRecord = false) :
    Faultless platform (.ok files) T ⟨true, { r with duration }⟩ where
  answers := hanswers
  files := hfiles
  outcome := by
    have hduration := RunReport.duration_foldl_note T.readings { totalFiles := files.length }
    rw [← hreport] at hduration
    show RunOutcome.mk true _ = RunOutcome.mk true (T.readings.foldl _ _)
    rw [← hreport]
    obtain ⟨total, processed, extracted, errors, _⟩ := r
    obtain rfl := hduration
    rfl
  ingests := h.ingests
  edges k := by
    have hentries : stored = T.extractions.map Extraction.entry := h.remembered
    rw [h.edges, hentries]
  keeps := h.keeps
  messages := h.messages
  logged := h.logged
  recorded _ := hrecorded
  unrecorded := nofun

/-- **Passes.** Where no change fails, the answers of the extractor decide what a pass does. -/
theorem PassCourse.faultless (h : PassCourse platform T o) (hT : T.NoFault) :
    ∃ listing, Faultless platform listing T o := by
  have hcourse := h
  cases h with
  | @unlisted started e now => exact ⟨.error e, faultless_unlisted platform started now e⟩
  | @listed started files T₁ p T₂ r T₃ _ turns links last =>
      have hrest := hT.of_cons.of_cons
      obtain ⟨hfiles, hreport⟩ := notes_of_files turns hrest.left
      obtain ⟨hlinks, hunanswered⟩ := unanswered_of_links links
      obtain ⟨rfl, -⟩ := rewires_of_origins links hrest.right.left
      have hcounted := counted_of_tallies (FileTally.of_files turns) (LinkTally.of_links links)
      cases last with
      | unrecorded =>
          exact absurd (List.mem_cons_of_mem _ List.mem_cons_self) (hrest.right.right _ _ _)
      | @recorded now t =>
          obtain ⟨stored, hdone⟩ := hcourse.done hT rfl
          -- neither the edges nor the end ask the extractor, and only the end writes the ledger
          have hreadings (T₃ : Transcript) (h₃ : T₃.readings = []) :
              Transcript.readings (.read started :: .listed (.ok files) :: (T₁ ++ (T₂ ++ T₃)))
                = T₁.readings := by
            show Transcript.readings (T₁ ++ (T₂ ++ T₃)) = _
            rw [Transcript.readings_append, Transcript.readings_append, hlinks, h₃]
            exact List.append_nil _
          have hanswers (T₃ : Transcript) (h₃ : T₃.answers = []) :
              Transcript.answers (.read started :: .listed (.ok files) :: (T₁ ++ (T₂ ++ T₃)))
                = .listed (.ok files) :: T₁.answers := by
            show _ :: Transcript.answers (T₁ ++ (T₂ ++ T₃)) = _
            rw [Transcript.answers_append, Transcript.answers_append, hunanswered, h₃]
            exact congrArg _ (List.append_nil _)
          refine ⟨.ok files, hdone.faultless ?_ ?_ ?_ ?_⟩
          · rw [hreadings _ rfl, hanswers _ rfl, answers_of_files turns]
          · rw [hreadings _ rfl]
            exact hfiles
          · rw [hreadings _ rfl]
            exact hreport
          · refine ⟨.read started :: .listed (.ok files) :: (T₁ ++ T₂ ++ [.read now]), t, now, ?_, ?_⟩
            · simp
            · show ∀ q ∈ Transcript.made (T₁ ++ T₂ ++ [.read now]), q.2.isRecord = false
              rw [Transcript.made_append]
              exact List.forall_mem_append.2 ⟨hcounted.records, fun _ h => absurd h List.not_mem_nil⟩

/-! ## Passes that get the same answers -/

namespace Faultless

variable (h : Faultless platform listing T o) (h' : Faultless platform listing' T' o')
  (hsame : T.answers = T'.answers)

include h h' hsame

theorem listing_eq : listing = listing' := by
  rw [h.answers, h'.answers] at hsame
  exact Exchange.listed.inj (List.cons.inj hsame).1

/-- They report the same. -/
theorem untimed_eq : o.untimed = o'.untimed := by
  obtain rfl := h.listing_eq h' hsame
  have hreadings := congrArg Transcript.readings hsame
  rw [Transcript.readings_answers, Transcript.readings_answers] at hreadings
  rw [h.outcome, h'.outcome, ← outcomeOf_undated, hreadings, outcomeOf_undated]

/-- They replace the same edges. -/
theorem edges_eq (k : List Edge) : replay edgeEffect T.made k = replay edgeEffect T'.made k := by
  rw [h.edges, h'.edges, Transcript.entries_eq hsame]

theorem ingests_undated : T.ingests.map (·.2.undated) = T'.ingests.map (·.2.undated) := by
  have hassets (T : Transcript) (hT : T.ingests.map (·.2) = T.extractions.map (·.asset)) :
      T.ingests.map (·.2.undated) = (T.extractions.map Extraction.undated).map (·.asset) := by
    have hundated := congrArg (List.map Asset.undated) hT
    rw [List.map_map, List.map_map] at hundated
    rw [List.map_map]
    exact hundated
  rw [hassets T h.ingests, hassets T' h'.ingests, Transcript.extractions_undated hsame]

/-- They ingest the same under each id, whenever they do. -/
theorem lastIngest?_undated (id : String) :
    (T.lastIngest? id).map (·.2.undated) = (T'.lastIngest? id).map (·.2.undated) := by
  have hlast (T : Transcript) : (T.lastIngest? id).map (·.2.undated)
      = lastWith (fun a : Asset => decide (a.id = id)) (T.ingests.map (·.2.undated)) := by
    rw [lastWith_map]
    rfl
  rw [hlast, hlast, h.ingests_undated h' hsame]

/-- They leave the same under each id, if the same was there before where they ingest nothing. -/
theorem readLast_undated {k k' : AssetsSeen} {id : String}
    (hk : T.lastIngest? id = none → T'.lastIngest? id = none →
      (k id).map (Option.map Asset.undated) = (k' id).map (Option.map Asset.undated)) :
    (readLast T.ingests k id).map (Option.map Asset.undated)
      = (readLast T'.ingests k' id).map (Option.map Asset.undated) := by
  have hlast := h.lastIngest?_undated h' hsame id
  unfold Transcript.lastIngest? at hlast hk
  unfold readLast
  cases hp : lastWith (fun p : Millis × Asset => decide (p.2.id = id)) T.ingests with
  | none =>
      rw [hp] at hlast
      have hp' := Option.map_eq_none_iff.1 hlast.symm
      rw [hp']
      exact hk hp hp'
  | some p =>
      rw [hp] at hlast
      obtain ⟨p', hp', hundated⟩ := Option.map_eq_some_iff.1 hlast.symm
      rw [hp']
      have hread := Asset.readBack_undated hundated.symm p.1 p'.1
      have hsome (r : Except Store.Fault Asset) : (r.map some).map (Option.map Asset.undated)
          = (r.map Asset.undated).map some := by
        cases r <;> rfl
      show ((p.2.readBack p.1).map some).map _ = ((p'.2.readBack p'.1).map some).map _
      rw [hsome, hsome, hread]

end Faultless

end Pass

end ContentGraph
