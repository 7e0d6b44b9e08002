import ContentGraph.Proofs.Run.Interleaving
import ContentGraph.Proofs.Run.Locators

/-!
# Import edges whose ends are gone

A run remembers what it has ingested and adds its edges later, and adding an edge does not look at
the assets. An asset that is removed in between is therefore left at the end of an edge
(`dangling_of_removal`). That is the only way: the invariant is that what a run has ingested is still
there, or was removed after the run ingested it (`Guarded`). Main statement: where runs and others
take their steps in any order, an import edge lacks an end only if that end was removed after a run
had ingested it and before the same run added the edge (`raced_of_dangling`).
-/

namespace ContentGraph

open Routine (Asks Leads)
open Store (Backend Change)

/-- Holds when an asset was removed after a run had ingested it. -/
def Lost (L : List Deed) (run id : String) : Prop :=
  ∃ before x after, L = before ++ x :: after
    ∧ (∃ now, x.made = [(now, .remove id)])
    ∧ ∃ now a, a.id = id ∧ Deed.asked run (.changed now (.ingest a) (.ok ())) ∈ before

/-- Holds when a run added an edge after an asset that it had ingested was removed. -/
def Raced (L : List Deed) (e : Edge) (id : String) : Prop :=
  ∃ before run now after, L = before ++ .asked run (.changed now (.relate e) (.ok ())) :: after
    ∧ Lost before run id

theorem Lost.append {L : List Deed} {run id : String} (h : Lost L run id) (L' : List Deed) :
    Lost (L ++ L') run id := by
  obtain ⟨before, x, after, rfl, hx⟩ := h
  exact ⟨before, x, after ++ L', by simp, hx⟩

theorem Raced.append {L : List Deed} {e : Edge} {id : String} (h : Raced L e id)
    (L' : List Deed) : Raced (L ++ L') e id := by
  obtain ⟨before, run, now, after, rfl, hlost⟩ := h
  exact ⟨before, run, now, after ++ L', by simp, hlost⟩

/-- A job with all that it has been through: what it ingested stands in the history, and is still
stored unless it was removed since. -/
structure Guarded (L : List Deed) (ids : List String) (job : Job) (T : Transcript) : Prop where
  leads : Leads (Pass.routine job.source.platform) T job.routine
  told : ∀ now a, .changed now (.ingest a) (.ok ()) ∈ T →
    Deed.asked job.id (.changed now (.ingest a) (.ok ())) ∈ L
  kept : ∀ now a, .changed now (.ingest a) (.ok ()) ∈ T → a.id ∈ ids ∨ Lost L job.id a.id

/-- What holds at all times: an import edge without an end has been raced, and each job is guarded. -/
structure Guards {σ : Type} [Backend σ] (ids : View σ (List String) idEffect)
    (edges : View σ (List Edge) edgeEffect) (L : List Deed) (w : World σ) : Prop where
  edges : ∀ e ∈ edges.seen w.store, e.kind = importKind → ∀ id, e.touches id = true →
    id ∉ ids.seen w.store → Raced L e id
  jobs : ∀ job ∈ w.dispatcher.jobs, ∃ T, Guarded L (ids.seen w.store) job T

/-! ## Single deeds -/

/-- A deed makes no change, or one that a run or someone else has asked for. -/
theorem Deed.made_cases (x : Deed) :
    x.made = [] ∨ ∃ now c, x.made = [(now, c)]
      ∧ ((∃ run, x = .asked run (.changed now c (.ok ()))) ∨ x = .served now c (.ok ())) := by
  match x with
  | .asked run (.changed now c (.ok ())) => exact .inr ⟨now, c, rfl, .inl ⟨run, rfl⟩⟩
  | .served now c (.ok ()) => exact .inr ⟨now, c, rfl, .inr rfl⟩
  | .asked _ (.changed _ _ (.error _)) => exact .inl rfl
  | .asked _ (.read _) => exact .inl rfl
  | .asked _ (.listed _) => exact .inl rfl
  | .asked _ (.extracted _ _) => exact .inl rfl
  | .served _ _ (.error _) => exact .inl rfl
  | .dispatched _ _ => exact .inl rfl
  | .ended _ => exact .inl rfl
  | .late _ => exact .inl rfl
  | .granted _ => exact .inl rfl
  | .cancelled _ => exact .inl rfl

/-- What is stored stays so unless it is removed. -/
theorem stored_or_removed {ids : List String} {id : String} (x : Deed) (h : id ∈ ids) :
    id ∈ replay idEffect x.made ids ∨ ∃ now, x.made = [(now, .remove id)] := by
  rcases x.made_cases with hx | ⟨now, c, hx, -⟩
  · rw [hx]
    exact .inl h
  · rw [hx]
    cases c with
    | ingest a =>
        left
        show id ∈ ids.filter _ ++ [a.id]
        by_cases hid : id = a.id
        · exact List.mem_append_right _ (List.mem_singleton.2 hid)
        · exact List.mem_append_left _ (List.mem_filter.2 ⟨h, decide_eq_true hid⟩)
    | remove removed =>
        by_cases hid : id = removed
        · exact .inr ⟨now, hid ▸ rfl⟩
        · exact .inl (List.mem_filter.2 ⟨h, decide_eq_true hid⟩)
    | _ => exact .inl h

/-- An edge that is there was just added, or it was there before and none of its ends has been
removed. -/
theorem added_or_kept {edges : List Edge} {e : Edge} (x : Deed)
    (h : e ∈ replay edgeEffect x.made edges) :
    (∃ now, x.made = [(now, .relate e)])
      ∨ e ∈ edges ∧ ∀ now id, x.made = [(now, .remove id)] → e.touches id = false := by
  rcases x.made_cases with hx | ⟨now, c, hx, -⟩
  · rw [hx] at h
    exact .inr ⟨h, fun now id hremoved => by simp [hx] at hremoved⟩
  · rw [hx] at h ⊢
    cases c with
    | relate e' =>
        rcases (mem_relate now).1 h with hmem | rfl
        · exact .inr ⟨hmem, fun _ _ hremoved => by simp at hremoved⟩
        · exact .inl ⟨now, rfl⟩
    | remove removed =>
        obtain ⟨hmem, htouches⟩ := List.mem_filter.1 h
        refine .inr ⟨hmem, fun _ id hremoved => ?_⟩
        simp only [List.cons.injEq, Prod.mk.injEq, Change.remove.injEq, and_true] at hremoved
        rw [← hremoved.2]
        simpa using htouches
    | clear origin kind =>
        exact .inr ⟨(List.mem_filter.1 h).1, fun _ _ hremoved => by simp at hremoved⟩
    | _ => exact .inr ⟨h, fun _ _ hremoved => by simp at hremoved⟩

/-! ## Guards -/

section Guards

variable {σ : Type} [Backend σ] {ids : View σ (List String) idEffect}
  {edges : View σ (List Edge) edgeEffect} {tree : FileTree} {L : List Deed} {w w' : World σ}
  {x : Deed}

/-- What a job has ingested is stored after a further deed, or lost. -/
theorem Guarded.kept_append {stored : List String} {job : Job} {T : Transcript}
    (h : Guarded L stored job T) (x : Deed) {now : Millis} {a : Asset}
    (hmem : .changed now (.ingest a) (.ok ()) ∈ T) :
    a.id ∈ replay idEffect x.made stored ∨ Lost (L ++ [x]) job.id a.id := by
  rcases h.kept now a hmem with hstored | hlost
  · refine (stored_or_removed x hstored).imp_right fun hremoved => ?_
    exact ⟨L, x, [], rfl, hremoved, now, a, rfl, h.told now a hmem⟩
  · exact .inr (hlost.append [x])

theorem Guards.jobs_append (h : Guards ids edges L w) (hx : Happens tree w x w') {job : Job}
    (hjob : job ∈ w'.dispatcher.jobs) :
    ∃ T, Guarded (L ++ [x]) (ids.seen w'.store) job T := by
  rw [hx.seen_eq ids]
  rcases hx.job_cases hjob with ⟨old, hold, hid, hsource, hroutine⟩ | ⟨-, hroutine⟩
    | ⟨old, hold, y, rfl, hid, hsource, hasks, -⟩
  · obtain ⟨T, hT⟩ := h.jobs old hold
    refine ⟨T, ?_, fun now a hmem => ?_, fun now a hmem => ?_⟩
    · rw [← hsource, ← hroutine]
      exact hT.leads
    · rw [← hid]
      exact List.mem_append_left _ (hT.told now a hmem)
    · rw [← hid]
      exact hT.kept_append x hmem
  · refine ⟨[], ?_, fun _ _ hmem => absurd hmem List.not_mem_nil,
      fun _ _ hmem => absurd hmem List.not_mem_nil⟩
    rw [hroutine]
    exact .refl
  · obtain ⟨T, hT⟩ := h.jobs old hold
    rw [← hid]
    refine ⟨T ++ [y], ?_, fun now a hmem => ?_, fun now a hmem => ?_⟩
    · rw [← hsource]
      exact hT.leads.snoc hasks
    · rw [← hid]
      rcases List.mem_append.1 hmem with hmem | hmem
      · exact List.mem_append_left _ (hT.told now a hmem)
      · rw [List.mem_singleton.1 hmem]
        exact List.mem_append_right _ List.mem_cons_self
    · rw [← hid]
      rcases List.mem_append.1 hmem with hmem | hmem
      · exact hT.kept_append _ hmem
      · -- what has just been ingested is stored
        obtain rfl := List.mem_singleton.1 hmem
        exact .inl (List.mem_append_right _ List.mem_cons_self)

theorem Guards.edges_append (h : Guards ids edges L w) (hx : Happens tree w x w')
    (hserved : ∀ now c o, x = .served now c o → ∀ e, c = .relate e → e.kind ≠ importKind)
    {e : Edge} (he : e ∈ edges.seen w'.store) (hkind : e.kind = importKind) {id : String}
    (hid : e.touches id = true) (hgone : id ∉ ids.seen w'.store) : Raced (L ++ [x]) e id := by
  rw [hx.seen_eq edges] at he
  rw [hx.seen_eq ids] at hgone
  rcases added_or_kept x he with ⟨now, hmade⟩ | ⟨he, htouches⟩
  · -- others add no import edges, so a run did
    obtain ⟨run, rfl⟩ : ∃ run, x = .asked run (.changed now (.relate e) (.ok ())) := by
      rcases x.made_cases with hnone | ⟨t, c, hsame, hx⟩
      · rw [hnone] at hmade
        exact nomatch hmade
      · rw [hsame] at hmade
        obtain ⟨rfl, rfl⟩ := Prod.mk.inj (List.cons.inj hmade).1
        exact hx.resolve_right fun hx => hserved _ _ _ hx e rfl hkind
    obtain ⟨job, hjob, _, -, rfl, -, -, hasks, -⟩ := hx.exists_job
    obtain ⟨T, hT⟩ := h.jobs job hjob
    -- the run has ingested the end, and it was stored then
    obtain ⟨t, a, hmem, rfl⟩ := Pass.ingested_of_relate hT.leads hasks hid
    have hlost := (hT.kept t a hmem).resolve_left hgone
    exact ⟨L, job.id, now, [], rfl, hlost⟩
  · -- the edge was there, so its end was gone before as well
    have hgone' : id ∉ ids.seen w.store := by
      intro hstored
      rcases stored_or_removed x hstored with hstored | ⟨now, hremoved⟩
      · exact hgone hstored
      · rw [htouches now id hremoved] at hid
        exact Bool.false_ne_true hid
    exact (h.edges e he hkind id hid hgone').append [x]

end Guards

/-! ## Interleavings -/

/-- **Interleavings.** Start where no run is in progress and each import edge has both its ends, and
let runs take their steps in any order, with removals and other changes in between that add no import
edge. Then an import edge lacks an end only if that end was removed after a run had ingested it and
before the same run added the edge. -/
theorem raced_of_dangling {σ : Type} [Backend σ] (ids : View σ (List String) idEffect)
    (edges : View σ (List Edge) edgeEffect) {tree : FileTree} {w₀ w : World σ} {L : List Deed}
    (hidle : w₀.dispatcher.jobs = [])
    (hstart : ∀ e ∈ edges.seen w₀.store, e.kind = importKind →
      ∀ id, e.touches id = true → id ∈ ids.seen w₀.store)
    (hsteps : Steps tree w₀ L w)
    (hserved : ∀ now c o, .served now c o ∈ L → ∀ e, c = .relate e → e.kind ≠ importKind) :
    ∀ e ∈ edges.seen w.store, e.kind = importKind → ∀ id, e.touches id = true →
      id ∉ ids.seen w.store → Raced L e id := by
  have hguards : Guards ids edges L w := by
    -- at the start every edge has its ends and nothing is in progress
    induction hsteps with
    | refl =>
        refine ⟨fun e he hkind id hid hgone => absurd (hstart e he hkind id hid) hgone, ?_⟩
        intro job hjob
        rw [hidle] at hjob
        exact absurd hjob List.not_mem_nil
    | @snoc L w' x w'' _ hx ih =>
        have h := ih fun now c o hmem => hserved now c o (List.mem_append_left _ hmem)
        refine ⟨fun e he hkind id hid hgone => ?_, fun job hjob => h.jobs_append hx hjob⟩
        refine h.edges_append hx (fun now c o hxo => ?_) he hkind hid hgone
        exact hserved now c o (hxo ▸ List.mem_append_right _ List.mem_cons_self)
  exact hguards.edges

/-! ## A removal between ingestion and linking -/

/-- The first asset is removed, and the run goes on to its end. -/
def raceEnded : Dispatcher × MemoryStore :=
  (linkedStanding.1.grant "run" 1).advance {} 0 (linkedStanding.2.remove "a")

/-- What leads there is one run and one removal. -/
theorem steps_race :
    ∃ L, Steps {} (⟨{}, {}⟩ : World MemoryStore) L ⟨raceEnded.1, raceEnded.2⟩
      ∧ ∀ now c o, .served now c o ∈ L → c = .remove "a" := by
  obtain ⟨L₁, h₁, hown₁⟩ := Dispatcher.goesOn_advance {} 0 linkedStarted ({} : MemoryStore)
  obtain ⟨L₂, h₂, hown₂⟩ := Dispatcher.goesOn_advance {} 0 (linkedStanding.1.grant "run" 1)
    (linkedStanding.2.remove "a")
  have hdispatch : ({} : Dispatcher).dispatch "run" linkedExtractor (some 1) 0 = .ok linkedStarted :=
    rfl
  have hstart : Happens {} (⟨{}, {}⟩ : World MemoryStore) (.dispatched "run" linkedExtractor)
      ⟨linkedStarted, {}⟩ :=
    .dispatched ⟨fun _ h => absurd h List.not_mem_nil, fun _ h => absurd h List.not_mem_nil⟩
      hdispatch
  have hremoved : Happens {} ⟨linkedStanding.1, linkedStanding.2⟩ (.served 0 (.remove "a") (.ok ()))
      ⟨linkedStanding.1, linkedStanding.2.remove "a"⟩ := .served rfl
  refine ⟨_, ((((Steps.refl.snoc hstart).trans h₁).snoc hremoved).snoc .granted).trans h₂, ?_⟩
  intro now c o hmem
  simp only [List.nil_append, List.mem_append, List.mem_singleton, reduceCtorEq, or_false,
    false_or] at hmem
  rcases hmem with (hmem | hmem) | hmem
  · exact absurd (hown₁ _ hmem) id
  · exact (Deed.served.inj hmem).2.1
  · exact absurd (hown₂ _ hmem) id

theorem raced_of_dangling_raceEnded :
    ∃ L, Steps {} (⟨{}, {}⟩ : World MemoryStore) L ⟨raceEnded.1, raceEnded.2⟩
      ∧ (∀ now c o, .served now c o ∈ L → ∀ e, c = .relate e → e.kind ≠ importKind)
      ∧ ⟨"b", "a", importKind⟩ ∈ raceEnded.2.edges ∧ "a" ∉ MemoryStore.idView.seen raceEnded.2
      ∧ Raced L ⟨"b", "a", importKind⟩ "a" := by
  obtain ⟨L, hsteps, hremoved⟩ := steps_race
  have hserved : ∀ now c o, .served now c o ∈ L → ∀ e, c = .relate e → e.kind ≠ importKind := by
    intro now c o hmem e he
    rw [hremoved now c o hmem] at he
    exact nomatch he
  have hedge : ⟨"b", "a", importKind⟩ ∈ raceEnded.2.edges := by decide +kernel
  have hgone : "a" ∉ MemoryStore.idView.seen raceEnded.2 := by decide +kernel
  exact ⟨L, hsteps, hserved, hedge, hgone, raced_of_dangling MemoryStore.idView
    MemoryStore.edgeView rfl (fun _ h => absurd h List.not_mem_nil) hsteps hserved _ hedge rfl "a"
    (by decide) hgone⟩

/-- **A race.** One run and one removal from an empty store can leave, when nothing is in progress
any more, an import edge whose target is gone. -/
theorem dangling_of_removal :
    ∃ L, Steps {} (⟨{}, {}⟩ : World MemoryStore) L ⟨raceEnded.1, raceEnded.2⟩
      ∧ (∀ now c o, .served now c o ∈ L → c = .remove "a")
      ∧ raceEnded.1.jobs = []
      ∧ raceEnded.2.edges = [⟨"b", "a", importKind⟩]
      ∧ MemoryStore.idView.seen raceEnded.2 = ["b"] := by
  obtain ⟨L, hsteps, hremoved⟩ := steps_race
  exact ⟨L, hsteps, hremoved, rfl, rfl, rfl⟩

end ContentGraph
