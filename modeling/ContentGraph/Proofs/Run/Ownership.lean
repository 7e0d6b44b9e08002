import ContentGraph.Proofs.Run.Prefixes
import ContentGraph.Proofs.Store.Sight

/-!
# What belongs to a pass

A pass asks for changes of the assets that its extractor finds, of the edges that leave them, and of
the ledger and the log of its platform, and for no others (`PassCourse.owns`). What belongs to one
extractor leaves the assets, the edges, the ledger and the log of another as they are
(`Owns.asset`, `Owns.edge`, `Owns.ledger`, `Owns.log`), even where a link names an asset of the
other: an edge belongs to the asset that it leaves.
-/

namespace ContentGraph

open Discovery (Candidate)
open Routine (Yields)
open Store (Change)

/-- What was logged for a platform, without the times. -/
def messagesOf (platform : String) (errors : List LoggedError) : List String :=
  (errors.filter (·.platform = platform)).map (·.message)

theorem messagesOf_append (platform : String) (errors errors' : List LoggedError) :
    messagesOf platform (errors ++ errors')
      = messagesOf platform errors ++ messagesOf platform errors' := by
  unfold messagesOf
  rw [List.filter_append, List.map_append]

namespace Extractor

variable {source : Extractor} {tree : FileTree} {c : Change} {now : Millis}

/-- Holds for the ids of the assets that an extractor finds in the files that it lists, whenever it
looks. -/
def Makes (source : Extractor) (tree : FileTree) (id : String) : Prop :=
  ∃ files file now x, source.discover tree = .ok files ∧ file ∈ files
    ∧ source.extract tree now file = .ok (some x) ∧ x.asset.id = id

/-- Holds for the changes of what belongs to an extractor. -/
inductive Owns (source : Extractor) (tree : FileTree) : Change → Prop
  | ingest {a} (h : source.Makes tree a.id) : Owns source tree (.ingest a)
  | relate {e} (h : source.Makes tree e.origin) : Owns source tree (.relate e)
  | clear {origin kind} (h : source.Makes tree origin) : Owns source tree (.clear origin kind)
  | record {fields} : Owns source tree (.record source.platform fields)
  | logError {message} : Owns source tree (.logError source.platform message)

namespace Owns

theorem asset (h : source.Owns tree c) {id : String} (hid : ¬source.Makes tree id)
    (k : AssetsSeen) : assetEffect now c k id = k id := by
  cases h with
  | @ingest a ha =>
      refine if_neg fun heq => hid ?_
      rwa [heq]
  | _ => rfl

theorem edge (h : source.Owns tree c) {e : Edge} (he : ¬source.Makes tree e.origin)
    (k : List Edge) : e ∈ edgeEffect now c k ↔ e ∈ k := by
  cases h with
  | @relate e' h' =>
      rw [mem_relate]
      refine or_iff_left ?_
      rintro rfl
      exact he h'
  | @clear origin kind h' =>
      have hne : e.origin ≠ origin := by
        intro heq
        exact he (heq ▸ h')
      show e ∈ k.filter (fun e => !(e.origin == origin && e.kind == kind)) ↔ e ∈ k
      simp [hne]
  | _ => exact Iff.rfl

theorem ledger (h : source.Owns tree c) {platform : String} (hp : source.platform ≠ platform)
    (reread : Json → Option Json) (k : LedgerRead) :
    ledgerReadEffect reread now c k platform = k platform := by
  cases h with
  | record => exact if_neg hp.symm
  | _ => rfl

theorem log (h : source.Owns tree c) {platform : String} (hp : source.platform ≠ platform)
    (k : List LoggedError) : messagesOf platform (errorEffect now c k) = messagesOf platform k := by
  cases h with
  | logError =>
      show messagesOf platform (k ++ [_]) = _
      simp [messagesOf, hp]
  | _ => rfl

end Owns

end Extractor

namespace Pass

variable {source : Extractor} {tree : FileTree}

/-- What the turns of files that are listed ask for belongs to the extractor. -/
theorem owns_of_files {files : List Candidate} {p p' : Progress} {T : Transcript}
    (h : Yields (files.foldlM (processFile source.platform) p) T p')
    (hfiles : source.discover tree = .ok files) (hT : T.AnsweredBy source tree) {now : Millis}
    {c : Change} {o : Except Store.Fault Unit} (hmem : .changed now c o ∈ T) :
    source.Owns tree c := by
  obtain ⟨file, hfile, outcome, hextracted, hstep | hstep⟩ := steps_of_files h hmem
  · exact nomatch hstep
  · cases hstep with
    | @ingest _ x _ hx =>
        obtain ⟨t, ht⟩ := hT.extracted hextracted
        rw [hx] at ht
        exact .ingest ⟨files, file, t, x, hfiles, hfile, ht.symm, rfl⟩
    | log => exact .logError

/-- **Passes.** A pass asks only for changes of what belongs to its extractor. -/
theorem PassCourse.owns {T : Transcript} {o : RunOutcome} (h : PassCourse source.platform T o)
    (hT : T.AnsweredBy source tree) {now : Millis} {c : Change} {r : Except Store.Fault Unit}
    (hmem : .changed now c r ∈ T) : source.Owns tree c := by
  cases h with
  | unlisted => simp at hmem
  | @listed started files T₁ p T₂ report T₃ _ turns links last =>
      have hfiles : source.discover tree = .ok files := (hT.listed (by simp)).symm
      have hT₁ : Transcript.AnsweredBy source tree T₁ :=
        ⟨fun h => hT.listed (by simp [h]), fun h => hT.extracted (by simp [h])⟩
      -- what is remembered has been ingested
      have hstored : ∀ entry ∈ p.stored, source.Makes tree entry.1 := by
        intro entry hentry
        obtain ⟨t, a, hingest, hid⟩ := (ingested_of_stored turns hentry).resolve_left List.not_mem_nil
        cases owns_of_files turns hfiles hT₁ hingest with
        | ingest ha => exact hid ▸ ha
      simp only [List.mem_cons, List.mem_append, reduceCtorEq, false_or] at hmem
      rcases hmem with hmem | hmem | hmem
      · exact owns_of_files turns hfiles hT₁ hmem
      · cases steps_of_links links _ hmem with
        | clear hentry => exact .clear (hstored _ hentry)
        | relate hentry _ => exact .relate (hstored _ hentry)
        | log => exact .logError
      · rcases last.steps _ hmem with ⟨_, heq⟩ | ⟨_, _, _, heq⟩
        · exact nomatch heq
        · obtain ⟨-, rfl, -⟩ := Exchange.changed.inj heq
          exact .record

end Pass

end ContentGraph
