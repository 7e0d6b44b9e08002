import ContentGraph.Proofs.Run.Turns
import ContentGraph.Proofs.Store.Replay

/-!
# Routines on their way

A routine that is still on its way has been led there by what it asked for and was answered
(`Leads`), and the answers come from the extractor and the store (`Over`). However it is answered
from there on, it comes to a result (`exists_yields`), so what is known of the course of a whole pass
tells what a pass on its way has done. Main statements: a pass that stands at a file has taken the
turns of the files before it and no more (`Pass.turns_of_extract`), and it adds an edge only between
assets that it has ingested (`Pass.ingested_of_relate`).
-/

namespace ContentGraph

open Discovery (Candidate)
open Store (Backend Change)

namespace Routine

variable {α β γ σ : Type}

/-! ## Single exchanges -/

/-- Holds when a routine asks for something and goes on with the answer. -/
inductive Asks : Routine α → Exchange → Routine α → Prop
  | clock {next : Millis → Routine α} {now : Millis} : Asks (.clock next) (.read now) (next now)
  | discover {next : Except Discovery.Fault (List Candidate) → Routine α}
      {files : Except Discovery.Fault (List Candidate)} :
      Asks (.discover next) (.listed files) (next files)
  | extract {file : Candidate} {next : Except SourceFault (Option Extraction) → Routine α}
      {outcome : Except SourceFault (Option Extraction)} :
      Asks (.extract file next) (.extracted file outcome) (next outcome)
  | change {c : Change} {next : Except Store.Fault Unit → Routine α} {now : Millis}
      {r : Except Store.Fault Unit} : Asks (.change c next) (.changed now c r) (next r)

theorem Asks.yields {r r' : Routine α} {x : Exchange} {T : Transcript} {y : α} (h : Asks r x r')
    (hy : Yields r' T y) : Yields r (x :: T) y := by
  cases h with
  | clock => exact .clock hy
  | discover => exact .discover hy
  | extract => exact .extract hy
  | change => exact .change hy

/-- What a routine asks for next, with the answer; nothing when it is done. -/
def exchange? [Backend σ] (source : Extractor) (tree : FileTree) (now : Millis) :
    Routine α → σ → Option Exchange
  | .done _, _ => none
  | .clock _, _ => some (.read now)
  | .discover _, _ => some (.listed (source.discover tree))
  | .extract file _, _ => some (.extracted file (source.extract tree now file))
  | .change c _, s => some (.changed now c (Backend.change now c s).1)

/-- Holds when an answer comes from an extractor or a store; a change leaves the store that
follows. -/
inductive Answered [Backend σ] (source : Extractor) (tree : FileTree) : Exchange → σ → σ → Prop
  | read {now s} : Answered source tree (.read now) s s
  | listed {s} : Answered source tree (.listed (source.discover tree)) s s
  | extracted {now file s} :
      Answered source tree (.extracted file (source.extract tree now file)) s s
  | changed {now c o s s'} (h : Backend.change now c s = (o, s')) :
      Answered source tree (.changed now c o) s s'

variable [Backend σ] {source : Extractor} {tree : FileTree}

/-- **Steps.** A step asks for one thing, and the answer comes from the extractor or the store. -/
theorem asks_of_exchange? {r : Routine α} {now : Millis} {s : σ} {x : Exchange}
    (h : r.exchange? source tree now s = some x) :
    Asks r x (r.step source tree now s).1 ∧ Answered source tree x s (r.step source tree now s).2 := by
  cases r with
  | done y => exact nomatch h
  | clock next =>
      obtain rfl := Option.some.inj h
      exact ⟨.clock, .read⟩
  | discover next =>
      obtain rfl := Option.some.inj h
      exact ⟨.discover, .listed⟩
  | extract file next =>
      obtain rfl := Option.some.inj h
      exact ⟨.extract, .extracted⟩
  | change c next =>
      obtain rfl := Option.some.inj h
      exact ⟨.change, .changed rfl⟩

/-! ## Exchanges in a row -/

/-- Holds when a routine, asking for what stands in a transcript, has come to another. -/
inductive Leads (r : Routine α) : Transcript → Routine α → Prop
  | refl : Leads r [] r
  | snoc {T x r' r''} (h : Leads r T r') (hx : Asks r' x r'') : Leads r (T ++ [x]) r''

theorem Leads.eq_of_nil {r r' : Routine α} (h : Leads r [] r') : r' = r := by
  generalize hT : ([] : Transcript) = T at h
  cases h with
  | refl => rfl
  | snoc => exact absurd hT.symm (List.append_ne_nil_of_right_ne_nil _ (List.cons_ne_nil _ _))

/-- What a routine yields from where it has been led to belongs to what it yields as a whole. -/
theorem Leads.yields {r r' : Routine α} {T T' : Transcript} {y : α} (h : Leads r T r')
    (hy : Yields r' T' y) : Yields r (T ++ T') y := by
  induction h generalizing T' with
  | refl => exact hy
  | snoc _ hx ih =>
      rw [List.append_assoc]
      exact ih (hx.yields hy)

/-- A result and what goes on with it are yielded one after the other. -/
theorem Yields.bind {r : Routine α} {f : α → Routine β} {T T' : Transcript} {x : α} {y : β}
    (h : Yields r T x) (h' : Yields (f x) T' y) : Yields (r >>= f) (T ++ T') y := by
  induction h with
  | done x => exact h'
  | clock _ ih => exact .clock (ih h')
  | discover _ ih => exact .discover (ih h')
  | extract _ ih => exact .extract (ih h')
  | change _ ih => exact .change (ih h')

/-- Every routine comes to a result, for one way of answering it. -/
theorem exists_yields (r : Routine α) : ∃ T y, Yields r T y := by
  induction r with
  | done y => exact ⟨[], y, .done y⟩
  | clock next ih =>
      obtain ⟨T, y, h⟩ := ih 0
      exact ⟨_, y, .clock h⟩
  | discover next ih =>
      obtain ⟨T, y, h⟩ := ih (.ok [])
      exact ⟨_, y, .discover h⟩
  | extract file next ih =>
      obtain ⟨T, y, h⟩ := ih (.ok none)
      exact ⟨_, y, .extract h⟩
  | change c next ih =>
      obtain ⟨T, y, h⟩ := ih (.ok ())
      exact ⟨.changed 0 c (.ok ()) :: T, y, .change h⟩

/-- A routine on its way can be brought to a result. -/
theorem Leads.exists_yields {r r' r'' : Routine α} {T : Transcript} {x : Exchange}
    (h : Leads r T r') (hx : Asks r' x r'') : ∃ T' y, Yields r (T ++ x :: T') y := by
  obtain ⟨T', y, hy⟩ := r''.exists_yields
  exact ⟨T', y, h.yields (hx.yields hy)⟩

/-- Holds when answers, given one after another, lead from one store to another. -/
inductive Over (source : Extractor) (tree : FileTree) (s : σ) : Transcript → σ → Prop
  | refl : Over source tree s [] s
  | snoc {T x s' s''} (h : Over source tree s T s') (hx : Answered source tree x s' s'') :
      Over source tree s (T ++ [x]) s''

theorem Over.cons {s s' s'' : σ} {T : Transcript} {x : Exchange}
    (hx : Answered source tree x s s') (h : Over source tree s' T s'') :
    Over source tree s (x :: T) s'' := by
  induction h with
  | refl => exact .snoc (T := []) .refl hx
  | snoc _ hy ih => exact .snoc (T := x :: _) ih hy

/-- **Runs.** In a run all is answered by the extractor and the store, over the whole transcript. -/
theorem over_transcript (source : Extractor) (tree : FileTree) (r : Routine α)
    (time : Nat → Millis) (s : σ) :
    Over source tree s (r.transcript source tree time s) (r.run source tree time s).2 := by
  induction r generalizing time s with
  | done y => exact .refl
  | clock next ih => exact (ih _ _ _).cons .read
  | discover next ih => exact (ih _ _ _).cons .listed
  | extract file next ih => exact (ih _ _ _).cons .extracted
  | change c next ih => exact (ih _ _ _).cons (.changed rfl)

/-- The files that were listed are those that the extractor finds. -/
theorem Over.eq_of_listed {s s' : σ} {T : Transcript} (h : Over source tree s T s')
    {files : Except Discovery.Fault (List Candidate)} (hmem : .listed files ∈ T) :
    files = source.discover tree := by
  induction h with
  | refl => exact absurd hmem List.not_mem_nil
  | snoc _ hx ih =>
      rcases List.mem_append.1 hmem with hmem | hmem
      · exact ih hmem
      · cases List.mem_singleton.1 hmem
        cases hx with
        | listed => rfl

/-- What was extracted is what the extractor finds in the file. -/
theorem Over.eq_of_extracted {s s' : σ} {T : Transcript} (h : Over source tree s T s')
    {file : Candidate} {outcome : Except SourceFault (Option Extraction)}
    (hmem : .extracted file outcome ∈ T) : ∃ now, outcome = source.extract tree now file := by
  induction h with
  | refl => exact absurd hmem List.not_mem_nil
  | snoc _ hx ih =>
      rcases List.mem_append.1 hmem with hmem | hmem
      · exact ih hmem
      · cases List.mem_singleton.1 hmem
        cases hx with
        | extracted => exact ⟨_, rfl⟩

end Routine

/-- Holds when what was listed and extracted comes from an extractor. -/
structure Transcript.AnsweredBy (source : Extractor) (tree : FileTree) (T : Transcript) : Prop where
  listed : ∀ {files}, .listed files ∈ T → files = source.discover tree
  extracted : ∀ {file outcome}, .extracted file outcome ∈ T →
    ∃ now, outcome = source.extract tree now file

theorem Routine.Over.answeredBy {σ : Type} [Backend σ] {source : Extractor} {tree : FileTree}
    {s s' : σ} {T : Transcript} (h : Over source tree s T s') : T.AnsweredBy source tree :=
  ⟨h.eq_of_listed, h.eq_of_extracted⟩

/-- In every view the changes that were made show, one after another. -/
theorem View.seen_of_answered {σ κ : Type} [Backend σ] {effect : Millis → Change → κ → κ}
    (v : View σ κ effect) {source : Extractor} {tree : FileTree} {x : Exchange} {s s' : σ}
    (h : Routine.Answered source tree x s s') :
    v.seen s' = replay effect (Transcript.made [x]) (v.seen s) := by
  cases h with
  | read => rfl
  | listed => rfl
  | extracted => rfl
  | @changed now c o s s' h =>
      cases o with
      | ok _ => exact v.made h
      | error e => exact v.failed h

/-- Over answers the changes that were made show in every view. -/
theorem View.seen_of_over {σ κ : Type} [Backend σ] {effect : Millis → Change → κ → κ}
    (v : View σ κ effect) {source : Extractor} {tree : FileTree} {T : Transcript} {s s' : σ}
    (h : Routine.Over source tree s T s') : v.seen s' = replay effect T.made (v.seen s) := by
  induction h with
  | refl => rfl
  | snoc _ hx ih =>
      rw [v.seen_of_answered hx, ih, Transcript.made_append, replay_append]

/-- Parts that no change touches stay as they were. -/
theorem Part.seen_of_over {σ κ : Type} [Backend σ] {touches : Change → Bool}
    (part : Part σ κ touches) {source : Extractor} {tree : FileTree} {T : Transcript} {s s' : σ}
    (h : Routine.Over source tree s T s')
    (hT : ∀ now c o, .changed now c o ∈ T → touches c = false) : part.seen s' = part.seen s := by
  induction h with
  | refl => rfl
  | snoc _ hx ih =>
      rw [← ih fun now c o hmem => hT now c o (List.mem_append_left _ hmem)]
      cases hx with
      | changed hchange =>
          exact part.kept hchange (hT _ _ _ (List.mem_append_right _ List.mem_cons_self))
      | _ => rfl

/-- Something in a list of two parts stands in the first or in the second. -/
theorem split_of_append {α : Type} {xs ys front back : List α} {x : α}
    (h : xs ++ ys = front ++ x :: back) :
    (∃ rest, xs = front ++ x :: rest) ∨ ∃ rest, front = xs ++ rest ∧ ys = rest ++ x :: back := by
  rcases List.append_eq_append_iff.1 h with ⟨rest, hfront, hys⟩ | ⟨rest, hxs, hback⟩
  · exact .inr ⟨rest, hfront, hys⟩
  · cases rest with
    | nil => exact .inr ⟨[], by simpa using hxs.symm, by simpa using hback.symm⟩
    | cons y rest =>
        obtain ⟨rfl, -⟩ := List.cons.inj hback
        exact .inl ⟨rest, hxs⟩

namespace Pass

open Routine (Yields Leads Asks)

variable {platform : String}

/-! ## Files -/

/-- What is asked for behind the extraction of a file: that what it yielded is stored, or that an
error is logged. -/
inductive FileStep (platform : String) (file : Candidate)
    (outcome : Except SourceFault (Option Extraction)) : Exchange → Prop
  | ingest {now x o} (h : outcome = .ok (some x)) :
      FileStep platform file outcome (.changed now (.ingest x.asset) o)
  | log {now cause o} :
      FileStep platform file outcome (.changed now (.logError platform (fileError file cause)) o)

/-- The turn of a file starts with its extraction. -/
theorem FileTurn.exists_cons {p p' : Progress} {file : Candidate} {T : Transcript}
    (h : FileTurn platform p file T p') :
    ∃ outcome rest, T = .extracted file outcome :: rest
      ∧ ∀ x ∈ rest, FileStep platform file outcome x := by
  cases h with
  | unread => exact ⟨_, _, rfl, List.forall_mem_singleton.2 .log⟩
  | empty => exact ⟨_, _, rfl, fun _ h => absurd h List.not_mem_nil⟩
  | unstored =>
      exact ⟨_, _, rfl, List.forall_mem_cons.2 ⟨.ingest rfl, List.forall_mem_singleton.2 .log⟩⟩
  | stored => exact ⟨_, _, rfl, List.forall_mem_singleton.2 (.ingest rfl)⟩

/-- Before the extraction of a file the files before it have had their turns. -/
theorem turns_before {files : List Candidate} {p p' : Progress} {T front back : Transcript}
    {file : Candidate} {outcome : Except SourceFault (Option Extraction)}
    (h : Yields (files.foldlM (processFile platform) p) T p')
    (hT : T = front ++ .extracted file outcome :: back) :
    ∃ before after p'', files = before ++ file :: after
      ∧ Yields (before.foldlM (processFile platform) p) front p'' := by
  induction files generalizing p T front with
  | nil =>
      obtain ⟨rfl, -⟩ := h.of_pure
      exact absurd hT.symm (List.append_ne_nil_of_right_ne_nil _ (List.cons_ne_nil _ _))
  | cons f files ih =>
      rw [List.foldlM_cons] at h
      obtain ⟨T₁, T₂, p₁, rfl, hturn, hrest⟩ := h.andThen
      obtain ⟨outcome₁, steps, rfl, hsteps⟩ := (yields_processFile hturn).exists_cons
      cases front with
      | nil =>
          obtain ⟨hhead, -⟩ := List.cons.inj hT
          obtain ⟨rfl, -⟩ := Exchange.extracted.inj hhead
          exact ⟨[], files, p, rfl, .done p⟩
      | cons x front =>
          obtain ⟨rfl, htail⟩ := List.cons.inj hT
          rcases split_of_append htail with ⟨rest, hextracted⟩ | ⟨rest, rfl, hT₂⟩
          · -- in its turn a file is extracted from only once
            have hmem : .extracted file outcome ∈ steps := by
              rw [hextracted]
              exact List.mem_append_right _ List.mem_cons_self
            exact nomatch hsteps _ hmem
          · obtain ⟨before, after, p'', rfl, hbefore⟩ := ih hrest hT₂
            refine ⟨f :: before, after, p'', rfl, ?_⟩
            rw [List.foldlM_cons]
            exact hturn.bind hbefore

/-- The files before have asked only for their own steps. -/
theorem steps_of_files {files : List Candidate} {p p' : Progress} {T : Transcript}
    (h : Yields (files.foldlM (processFile platform) p) T p') {x : Exchange} (hx : x ∈ T) :
    ∃ file ∈ files, ∃ outcome, .extracted file outcome ∈ T
      ∧ (x = .extracted file outcome ∨ FileStep platform file outcome x) := by
  refine Yields.foldlM_induction (P := fun seen T _ => ∀ x ∈ T, ∃ file ∈ seen, ∃ outcome,
    .extracted file outcome ∈ T ∧ (x = .extracted file outcome ∨ FileStep platform file outcome x))
    (fun _ h => absurd h List.not_mem_nil) ?_ h x hx
  intro seen file T T' _ _ hseen hturn x hx
  obtain ⟨outcome, steps, rfl, hsteps⟩ := (yields_processFile hturn).exists_cons
  rcases List.mem_append.1 hx with hx | hx
  · obtain ⟨f, hf, outcome', hmem, hstep⟩ := hseen x hx
    exact ⟨f, List.mem_append_left _ hf, outcome', List.mem_append_left _ hmem, hstep⟩
  · refine ⟨file, List.mem_append_right _ List.mem_cons_self, outcome,
      List.mem_append_right _ List.mem_cons_self, ?_⟩
    exact (List.mem_cons.1 hx).imp_right fun hx => hsteps x hx

/-- What is remembered of files has been ingested. -/
theorem ingested_of_stored {files : List Candidate} {p p' : Progress} {T : Transcript}
    (h : Yields (files.foldlM (processFile platform) p) T p') {entry : String × List String}
    (hentry : entry ∈ p'.stored) :
    entry ∈ p.stored ∨ ∃ now a, .changed now (.ingest a) (.ok ()) ∈ T ∧ a.id = entry.1 := by
  refine Yields.foldlM_induction (P := fun _ T p' => ∀ entry ∈ p'.stored, entry ∈ p.stored
    ∨ ∃ now a, .changed now (.ingest a) (.ok ()) ∈ T ∧ a.id = entry.1)
    (fun _ h => .inl h) ?_ h entry hentry
  intro _ file T T' b b' hb hturn entry hentry
  have hold : entry ∈ b.stored → entry ∈ p.stored
      ∨ ∃ now a, .changed now (.ingest a) (.ok ()) ∈ T ++ T' ∧ a.id = entry.1 := by
    intro hentry
    refine (hb entry hentry).imp_right ?_
    rintro ⟨now, a, hmem, hid⟩
    exact ⟨now, a, List.mem_append_left _ hmem, hid⟩
  cases yields_processFile hturn with
  | unread => exact hold hentry
  | empty => exact hold hentry
  | unstored => exact hold hentry
  | @stored x t =>
      rcases List.mem_append.1 hentry with hentry | hentry
      · exact hold hentry
      · obtain rfl := List.mem_singleton.1 hentry
        exact .inr ⟨t, x.asset, List.mem_append_right _ (by simp), rfl⟩

/-! ## Edges -/

/-- What is asked for when the edges of assets are replaced. -/
inductive LinkStep (platform : String) (hasStored : String → Bool)
    (entries : List (String × List String)) : Exchange → Prop
  | clear {now entry o} (hentry : entry ∈ entries) :
      LinkStep platform hasStored entries (.changed now (.clear entry.1 importKind) o)
  | relate {now entry target o} (hentry : entry ∈ entries) (htarget : hasStored target = true) :
      LinkStep platform hasStored entries (.changed now (.relate ⟨entry.1, target, importKind⟩) o)
  | log {now message o} :
      LinkStep platform hasStored entries (.changed now (.logError platform message) o)

theorem LinkStep.mono {hasStored : String → Bool} {entries entries' : List (String × List String)}
    {x : Exchange} (h : LinkStep platform hasStored entries x)
    (hsub : ∀ entry ∈ entries, entry ∈ entries') : LinkStep platform hasStored entries' x := by
  cases h with
  | clear hentry => exact .clear (hsub _ hentry)
  | relate hentry htarget => exact .relate (hsub _ hentry) htarget
  | log => exact .log

/-- The turn of an asset clears its edges and adds edges to what has been stored. -/
theorem OriginTurn.steps {hasStored : String → Bool} {entry : String × List String}
    {r r' : RunReport} {T : Transcript} (h : OriginTurn platform hasStored r entry T r') :
    ∀ x ∈ T, LinkStep platform hasStored [entry] x := by
  cases h with
  | uncleared =>
      exact List.forall_mem_cons.2 ⟨.clear List.mem_cons_self, List.forall_mem_singleton.2 .log⟩
  | @cleared t T r' links =>
      have hlinks := Yields.foldlM_induction (P := fun seen T _ =>
        (∀ target ∈ seen, hasStored target = true) → ∀ x ∈ T,
          LinkStep platform hasStored [entry] x) (fun _ _ h => absurd h List.not_mem_nil) ?_ links
      · refine List.forall_mem_cons.2 ⟨.clear List.mem_cons_self, hlinks fun target htarget => ?_⟩
        exact (List.mem_filter.1 htarget).2
      · intro seen target T T' _ _ hseen hturn hstored
        obtain ⟨hstored, htarget⟩ := List.forall_mem_append.1 hstored
        have hrelate := htarget target List.mem_cons_self
        refine List.forall_mem_append.2 ⟨hseen hstored, ?_⟩
        cases yields_linkTo hturn with
        | linked => exact List.forall_mem_singleton.2 (.relate List.mem_cons_self hrelate)
        | unlinked =>
            exact List.forall_mem_cons.2
              ⟨.relate List.mem_cons_self hrelate, List.forall_mem_singleton.2 .log⟩

theorem steps_of_links {hasStored : String → Bool} {entries : List (String × List String)}
    {r r' : RunReport} {T : Transcript}
    (h : Yields (entries.foldlM (linkFrom platform hasStored) r) T r') :
    ∀ x ∈ T, LinkStep platform hasStored entries x := by
  refine Yields.foldlM_induction (P := fun seen T _ => ∀ x ∈ T,
    LinkStep platform hasStored seen x) (fun _ h => absurd h List.not_mem_nil) ?_ h
  intro seen entry T T' _ _ hseen hturn
  refine List.forall_mem_append.2 ⟨fun x hx => ?_, fun x hx => ?_⟩
  · exact (hseen x hx).mono fun entry hentry => List.mem_append_left _ hentry
  · refine ((yields_linkFrom hturn).steps x hx).mono fun entry hentry => ?_
    exact List.mem_append_right _ hentry

/-- The end of a pass neither extracts nor adds edges. -/
theorem CloseTurn.steps {started : Millis} {r : RunReport} {T : Transcript} {o : RunOutcome}
    (h : CloseTurn platform started r T o) :
    ∀ x ∈ T, (∃ now, x = .read now) ∨ ∃ now fields o, x = .changed now (.record platform fields) o := by
  cases h with
  | recorded => simp
  | unrecorded => simp

/-! ## Passes on their way -/

/-- Where a file or a change stands in the course of a pass: in the turns of the files, or behind
them among the edges or at the end. -/
theorem PassCourse.place {T back : Transcript} {x : Exchange} {o : RunOutcome}
    (h : PassCourse platform (T ++ x :: back) o) (hread : ∀ now, x ≠ .read now)
    (hlisted : ∀ files, x ≠ .listed files) :
    ∃ started files T' T₁ p, T = .read started :: .listed (.ok files) :: T'
      ∧ Yields (files.foldlM (processFile platform) { report.totalFiles := files.length }) T₁ p
      ∧ ((∃ rest, T₁ = T' ++ x :: rest) ∨ ∃ rest, T' = T₁ ++ rest
        ∧ (LinkStep platform p.hasStored p.stored x
          ∨ ∃ now fields o, x = .changed now (.record platform fields) o)) := by
  generalize hW : T ++ x :: back = W at h
  cases h with
  | unlisted =>
      have hx : x ∈ T ++ x :: back := List.mem_append_right _ List.mem_cons_self
      rw [hW] at hx
      simp only [List.mem_cons, List.not_mem_nil, or_false] at hx
      rcases hx with rfl | rfl | rfl
      · exact absurd rfl (hread _)
      · exact absurd rfl (hlisted _)
      · exact absurd rfl (hread _)
  | @listed started files T₁ p T₂ r T₃ _ turns links last =>
      match T with
      | [] => exact absurd (List.cons.inj hW).1 (hread _)
      | [_] => exact absurd (List.cons.inj (List.cons.inj hW).2).1 (hlisted _)
      | y :: z :: T' =>
          simp only [List.cons_append, List.cons.injEq] at hW
          obtain ⟨rfl, rfl, hW⟩ := hW
          refine ⟨started, files, T', T₁, p, rfl, turns, ?_⟩
          refine (split_of_append hW.symm).imp_right ?_
          rintro ⟨rest, rfl, hrest⟩
          refine ⟨rest, rfl, ?_⟩
          have hx : x ∈ T₂ ++ T₃ := by
            rw [hrest]
            exact List.mem_append_right _ List.mem_cons_self
          rcases List.mem_append.1 hx with hx | hx
          · exact .inl (steps_of_links links x hx)
          · refine .inr ((last.steps x hx).resolve_left ?_)
            rintro ⟨now, rfl⟩
            exact hread now rfl

/-- **Files.** A pass that stands at a file has listed the files, and those before it have had their
turns. -/
theorem turns_of_extract {T : Transcript} {file : Candidate}
    {next : Except SourceFault (Option Extraction) → Routine RunOutcome}
    (h : Leads (routine platform) T (.extract file next)) :
    ∃ started before after T' p,
      T = .read started :: .listed (.ok (before ++ file :: after)) :: T'
        ∧ Yields (before.foldlM (processFile platform)
          { report.totalFiles := (before ++ file :: after).length }) T' p := by
  have hask : Asks (.extract file next) (.extracted file (.ok none)) (next (.ok none)) := .extract
  obtain ⟨T'', o, hyields⟩ := h.exists_yields hask
  obtain ⟨started, files, T', T₁, p, rfl, hturns, ⟨rest, hT₁⟩ | ⟨rest, -, hstep⟩⟩ :=
    (yields_routine hyields).place (fun _ => nofun) fun _ => nofun
  · obtain ⟨before, after, p', rfl, hbefore⟩ := turns_before hturns hT₁
    exact ⟨started, before, after, T', p', rfl, hbefore⟩
  · -- behind the files nothing is extracted
    rcases hstep with hstep | ⟨_, _, _, hstep⟩
    · exact nomatch hstep
    · exact nomatch hstep

/-- **Edges.** A pass adds an edge only between assets that it has ingested. -/
theorem ingested_of_relate {T : Transcript} {r r' : Routine RunOutcome} {now : Millis} {e : Edge}
    {o : Except Store.Fault Unit} (h : Leads (routine platform) T r)
    (hx : Asks r (.changed now (.relate e) o) r') {id : String} (hid : e.touches id = true) :
    ∃ t a, .changed t (.ingest a) (.ok ()) ∈ T ∧ a.id = id := by
  obtain ⟨T'', outcome, hyields⟩ := h.exists_yields hx
  obtain ⟨started, files, T', T₁, p, rfl, hturns, ⟨rest, hT₁⟩ | ⟨rest, rfl, hstep⟩⟩ :=
    (yields_routine hyields).place (fun _ => nofun) fun _ => nofun
  · -- files ask for no edges
    obtain ⟨file, -, _, -, hstep | hstep⟩ := steps_of_files hturns (x := .changed now (.relate e) o)
      (hT₁ ▸ List.mem_append_right _ List.mem_cons_self)
    · exact nomatch hstep
    · exact nomatch hstep
  · rcases hstep with hstep | ⟨_, _, _, hstep⟩
    · have hstored : ∃ entry ∈ p.stored, entry.1 = id := by
        cases hstep with
        | @relate _ entry target _ hentry htarget =>
            unfold Edge.touches at hid
            rw [Bool.or_eq_true, beq_iff_eq, beq_iff_eq] at hid
            rcases hid with rfl | rfl
            · exact ⟨entry, hentry, rfl⟩
            · obtain ⟨entry', hentry', htarget⟩ := List.any_eq_true.1 htarget
              exact ⟨entry', hentry', beq_iff_eq.1 htarget⟩
      obtain ⟨entry, hentry, rfl⟩ := hstored
      obtain ⟨t, a, hmem, hid⟩ := (ingested_of_stored hturns hentry).resolve_left List.not_mem_nil
      refine ⟨t, a, List.mem_cons_of_mem _ (List.mem_cons_of_mem _ ?_), hid⟩
      exact List.mem_append_left _ hmem
    · exact nomatch hstep

end Pass

end ContentGraph
