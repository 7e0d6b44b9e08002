import ContentGraph.Proofs.Run.Readings

/-!
# Extractors that answer alike

An extractor is *steady* over files when what it finds in each does not depend on the time, but for
the date (`Extractor.Steady`). The extractors of components and of documents are
(`steady_components`, `steady_documents`). Main statement: where no change fails, a pass of a steady
extractor gets the answers that it would get at any other time (`Faultless.answers_eq`).
-/

namespace ContentGraph

open Discovery (Candidate)

/-- A reading of a file at a time, without the date. -/
def Extractor.undatedReading (source : Extractor) (tree : FileTree) (now : Millis)
    (file : Candidate) : Except SourceFault (Option Extraction) :=
  (source.extract tree now file).map (Option.map Extraction.undated)

/-- Holds when what the files that are listed yield does not depend on the time, but for the date. -/
def Extractor.Steady (source : Extractor) (tree : FileTree) : Prop :=
  ∀ files, source.discover tree = .ok files → ∀ file ∈ files, ∀ now now',
    source.undatedReading tree now file = source.undatedReading tree now' file

/-- What a steady extractor answers a pass, whenever that is. -/
def Extractor.steadyAnswers (source : Extractor) (tree : FileTree) : Transcript :=
  .listed (source.discover tree) :: ((source.discover tree).toOption.getD []).map fun file =>
    .extracted file (source.undatedReading tree 0 file)

theorem steady_components (corpus : Corpus) (tree : FileTree) :
    (Extractor.components corpus).Steady tree := by
  intro files _ file _ now now'
  show (extractComponent corpus tree now file).map _ = (extractComponent corpus tree now' file).map _
  unfold extractComponent
  cases readSource tree file.path with
  | error e => rfl
  | ok read =>
      obtain ⟨text, size, modified⟩ := read
      dsimp only [bind, Except.bind]
      cases Component.analyze? text with
      | none => rfl
      | some info =>
          dsimp only
          split <;> rfl

theorem steady_documents (corpus : Corpus) (tree : FileTree) :
    (Extractor.documents corpus).Steady tree := by
  intro files _ file _ now now'
  show (extractDocument tree now file).map _ = (extractDocument tree now' file).map _
  unfold extractDocument
  cases readSource tree file.path with
  | error e => rfl
  | ok read =>
      obtain ⟨text, size, modified⟩ := read
      show Except.ok (Option.map _ (Option.map _ _)) = Except.ok (Option.map _ (Option.map _ _))
      unfold Document.toAsset?
      dsimp only
      split <;> rfl

namespace Pass

variable {platform : String} {listing : Except Discovery.Fault (List Candidate)} {T : Transcript}
  {o : RunOutcome} {source : Extractor} {tree : FileTree}

/-- **Answers.** Where no change fails, a steady extractor answers a pass as it would at any time. -/
theorem Faultless.answers_eq (h : Faultless platform listing T o) (hsteady : source.Steady tree)
    (hanswered : T.AnsweredBy source tree) :
    listing = source.discover tree ∧ T.answers = source.steadyAnswers tree := by
  have hlisting : listing = source.discover tree := by
    have hmem : .listed listing ∈ T.answers := h.answers ▸ List.mem_cons_self
    obtain ⟨x, hx, heq⟩ := List.mem_filterMap.1 hmem
    cases x with
    | listed files =>
        obtain rfl := Exchange.listed.inj (Option.some.inj heq)
        exact hanswered.listed hx
    | read now => exact nomatch heq
    | extracted file outcome => exact nomatch heq
    | changed now c o => exact nomatch heq
  refine ⟨hlisting, ?_⟩
  have hreadings : ∀ q ∈ T.readings, q.undated.2 = source.undatedReading tree 0 q.1 := by
    intro q hq
    obtain ⟨x, hx, heq⟩ := List.mem_filterMap.1 hq
    cases x with
    | extracted file outcome =>
        obtain rfl := Option.some.inj heq
        obtain ⟨now, rfl⟩ := hanswered.extracted hx
        have hfile : file ∈ listing.toOption.getD [] := h.files ▸ List.mem_map_of_mem hq
        cases hfiles : listing with
        | error e =>
            rw [hfiles] at hfile
            exact absurd hfile List.not_mem_nil
        | ok files =>
            rw [hfiles] at hfile
            exact hsteady files (hlisting ▸ hfiles) file hfile now 0
    | read now => exact nomatch heq
    | listed files => exact nomatch heq
    | changed now c o => exact nomatch heq
  unfold Extractor.steadyAnswers
  rw [h.answers, ← hlisting, ← h.files, List.map_map]
  refine congrArg _ (List.map_congr_left fun q hq => ?_)
  rw [hreadings q hq]
  rfl

/-- A run of a steady extractor gets the same answers whenever no change fails. -/
theorem answers_of_run {σ : Type} [Store.Backend σ] (hsteady : source.Steady tree)
    (time : Nat → Millis) (s : σ)
    (hT : ((routine source.platform).transcript source tree time s).NoFault) :
    ((routine source.platform).transcript source tree time s).answers = source.steadyAnswers tree := by
  obtain ⟨listing, h⟩ := (yields_routine (Routine.yields_transcript source tree
    (routine source.platform) time s)).faultless hT
  exact (h.answers_eq hsteady (Routine.over_transcript _ _ _ _ _).answeredBy).2

end Pass

end ContentGraph
