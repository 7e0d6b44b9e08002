import ContentGraph.Proofs.Run.Interleaving
import ContentGraph.Proofs.Store.Views

/-!
# Cancelled runs

A run that is cancelled before it has started or while it stands at a file leaves no more than the
files before have left: assets that were ingested and errors that were logged. Its record tells the
cancellation. From then on it has no job, so it takes no step, and its record stays as it is until a
further run of its platform makes room. The invariants: while a run is under way, all that it asked
for has led its job to where it is, and its record is the one with which it started (`Underway`);
when it has been stopped, it has no job and one record that is over (`Stopped`). Main statement:
`cancel_leaves`.
-/

namespace ContentGraph

open Discovery (Candidate)
open Routine (Yields Asks Leads Answered Over)
open Store (Backend Change)

/-- Holds for the start of a run under an id. -/
def Deed.Starts (id : String) : Deed → Prop
  | .dispatched run _ => run = id
  | _ => False

/-- The record of a run that has just started. -/
def RunRecord.running (id platform : String) (startedAt : Millis) : RunRecord :=
  { id, platform, startedAt }

/-- The record of a run that was cancelled. -/
def RunRecord.cancelled (id platform : String) (startedAt now : Millis) : RunRecord where
  id := id
  platform := platform
  status := .failed
  startedAt := startedAt
  finishedAt := some now
  result := some ⟨0, 0, 0, ["Extraction cancelled"], 0⟩

/-! ## Records -/

namespace Registry

variable {id platform : String} {r r' : Registry} {record : RunRecord}

/-- Holds when no other record than one is remembered under an id. -/
def HasOnly (id : String) (record : RunRecord) (r : Registry) : Prop :=
  ∀ run ∈ r.records, run.id = id → run = record

theorem HasOnly.find? (h : HasOnly id record r) : r.find? id = some record ∨ r.find? id = none := by
  cases hfind : r.find? id with
  | none => exact .inr rfl
  | some run =>
      have hid : run.id = id := by simpa using List.find?_some hfind
      rw [h run (List.mem_of_find?_eq_some hfind) hid]
      exact .inl rfl

theorem HasOnly.find?_of_mem (h : HasOnly id record r) (hmem : record ∈ r.records)
    (hid : record.id = id) : r.find? id = some record := by
  refine h.find?.resolve_right fun hnone => ?_
  exact List.find?_eq_none.1 hnone record hmem (decide_eq_true hid)

/-- A run that starts makes room among the runs of its platform that are over, and its record comes
last. -/
theorem records_of_dispatch {now : Millis} (h : r.dispatch id platform now = (.ok (), r')) :
    ∃ kept, kept.Sublist r.records
      ∧ (∀ run ∈ r.records, ¬isPast platform run = true → run ∈ kept)
      ∧ r'.records = kept ++ [.running id platform now] := by
  obtain ⟨run, -, -, hrefused⟩ | ⟨-, kept, hkept, hothers, hstarted⟩ :=
    dispatch_cases id platform now r
  · rw [hrefused] at h
    exact nomatch (Prod.mk.inj h).1
  · rw [hstarted] at h
    rw [← (Prod.mk.inj h).2]
    exact ⟨kept, hkept, hothers, rfl⟩

theorem HasOnly.dispatch {other : String} {now : Millis} (h : HasOnly id record r)
    (hother : other ≠ id) (hdispatch : r.dispatch other platform now = (.ok (), r')) :
    HasOnly id record r' := by
  obtain ⟨kept, hkept, -, hrecords⟩ := records_of_dispatch hdispatch
  intro run hrun hid
  rw [hrecords] at hrun
  rcases List.mem_append.1 hrun with hrun | hrun
  · exact h run (hkept.subset hrun) hid
  · rw [List.mem_singleton.1 hrun] at hid
    exact absurd hid hother

/-- A record that the end of a run does not change stays the only one. -/
theorem HasOnly.finish (h : HasOnly id record r) (other : String) (outcome : RunOutcome)
    (now : Millis) :
    HasOnly id (endRecord other outcome now record) (r.finish other outcome now) := by
  intro run hrun hid
  rw [finish_records] at hrun
  obtain ⟨before, hbefore, rfl⟩ := List.mem_map.1 hrun
  rw [endRecord_id] at hid
  rw [h before hbefore hid]

end Registry

open Registry (HasOnly)

variable {σ : Type} [Backend σ] {tree : FileTree}

/-! ## While a run is under way -/

/-- What happens to a world while a run goes on under an id and nothing else changes the store; the
transcript is of that run. -/
inductive Undisturbed (tree : FileTree) (id : String) (w : World σ) : Transcript → World σ → Prop
  | refl : Undisturbed tree id w [] w
  | own {T w' y w''} (h : Undisturbed tree id w T w') (hx : Happens tree w' (.asked id y) w'') :
      Undisturbed tree id w (T ++ [y]) w''
  | other {T w' x w''} (h : Undisturbed tree id w T w') (hx : Happens tree w' x w'')
      (hasked : ∀ y, x ≠ .asked id y) (hstarts : ¬x.Starts id) (hstore : w''.store = w'.store) :
      Undisturbed tree id w T w''

/-- A run under way from a store: its transcript, which has led to its job and to the store, and its
record. -/
structure Underway (id : String) (source : Extractor) (tree : FileTree) (startedAt : Millis) (s₀ : σ)
    (T : Transcript) (w : World σ) : Prop where
  answered : Over source tree s₀ T w.store
  single : (w.dispatcher.jobs.map (·.id)).count id ≤ 1
  jobs : ∀ job ∈ w.dispatcher.jobs, job.id = id → job.source = source
    ∧ Leads (Pass.routine source.platform) T job.routine
  record : id ∈ w.dispatcher.jobs.map (·.id) →
    HasOnly id (.running id source.platform startedAt) w.dispatcher.registry
      ∧ .running id source.platform startedAt ∈ w.dispatcher.registry.records

theorem eq_of_count_le_one {jobs : List Job} {id : String}
    (h : (jobs.map (·.id)).count id ≤ 1) {job job' : Job} (hjob : job ∈ jobs) (hjob' : job' ∈ jobs)
    (hid : job.id = id) (hid' : job'.id = id) : job = job' := by
  induction jobs with
  | nil => exact absurd hjob List.not_mem_nil
  | cons first rest ih =>
      rw [List.map_cons, List.count_cons] at h
      -- under the id of the first there is no other in the rest
      have hrest : ∀ other ∈ rest, other.id = id → first.id ≠ id := by
        intro other hother hid hfirst
        have hpos : 0 < (rest.map (·.id)).count id :=
          List.count_pos_iff.2 (List.mem_map.2 ⟨other, hother, hid⟩)
        rw [if_pos (beq_iff_eq.2 hfirst)] at h
        omega
      rcases List.mem_cons.1 hjob with hfirst | hjob
      · rcases List.mem_cons.1 hjob' with hfirst' | hjob'
        · exact hfirst.trans hfirst'.symm
        · exact absurd (hfirst ▸ hid) (hrest job' hjob' hid')
      · rcases List.mem_cons.1 hjob' with hfirst' | hjob'
        · exact absurd (hfirst' ▸ hid') (hrest job hjob hid)
        · exact ih (by omega) hjob hjob'

namespace Happens

variable {w w' : World σ} {x : Deed} {id : String}

/-- Unless a run starts under it, an id has no more jobs than before. -/
theorem count_le (h : Happens tree w x w') (hstarts : ¬x.Starts id) :
    (w'.dispatcher.jobs.map (·.id)).count id ≤ (w.dispatcher.jobs.map (·.id)).count id := by
  rcases h.ids with hsub | ⟨run, source, rfl, -, hids⟩
  · exact hsub.count_le id
  · rw [hids, List.count_append, List.count_singleton, if_neg]
    · exact Nat.le_refl _
    · exact fun hrun => hstarts (beq_iff_eq.1 hrun)

/-- A run in progress keeps its record. -/
theorem keeps_record (h : Happens tree w x w') (hstarts : ¬x.Starts id)
    (hsingle : (w.dispatcher.jobs.map (·.id)).count id ≤ 1)
    (hjob : id ∈ w'.dispatcher.jobs.map (·.id)) {record : RunRecord} (hid : record.id = id)
    (hrunning : record.isFinished = false) (honly : HasOnly id record w.dispatcher.registry)
    (hmem : record ∈ w.dispatcher.registry.records) :
    HasOnly id record w'.dispatcher.registry ∧ record ∈ w'.dispatcher.registry.records := by
  rcases h.registry_cases with hsame | ⟨run, source, now, rfl, hdispatch⟩
    | ⟨run, outcome, now, hfinish, hgone⟩
  · rw [hsame]
    exact ⟨honly, hmem⟩
  · refine ⟨honly.dispatch hstarts hdispatch, ?_⟩
    obtain ⟨kept, -, hkept, hrecords⟩ := Registry.records_of_dispatch hdispatch
    rw [hrecords]
    exact List.mem_append_left _ (hkept record hmem (Registry.not_isPast_of_unfinished hrunning))
  · -- who ends has no job any more, so it is another run
    have hne : record.id ≠ run := by
      intro hrun
      rw [hid] at hrun
      subst hrun
      exact hgone hsingle hjob
    rw [hfinish, ← Registry.endRecord_of_ne outcome now hne]
    exact ⟨honly.finish run outcome now, Registry.mem_finish hmem run outcome now⟩

end Happens

namespace Underway

variable {id : String} {source : Extractor} {startedAt : Millis} {s₀ : σ} {T : Transcript}
  {w w' : World σ} {x : Deed}

theorem start {d d' : Dispatcher} {permits : Option Nat} (hfresh : d.Fresh id)
    (h : d.dispatch id source permits startedAt = .ok d') :
    Underway id source tree startedAt s₀ [] ⟨d', s₀⟩ := by
  obtain ⟨registry, hregistry, rfl⟩ := Dispatcher.dispatch_ok h
  obtain ⟨kept, hkept, -, hrecords⟩ := Registry.records_of_dispatch hregistry
  have hnone : id ∉ d.jobs.map (·.id) := fun hmem => by
    obtain ⟨job, hjob, hid⟩ := List.mem_map.1 hmem
    exact hfresh.jobs job hjob hid
  refine ⟨.refl, ?_, fun job hjob hid => ?_, fun _ => ⟨fun run hrun hid => ?_, ?_⟩⟩
  · show ((d.jobs ++ [_]).map Job.id).count id ≤ 1
    rw [List.map_append, List.count_append, List.count_eq_zero.2 hnone, Nat.zero_add]
    exact List.count_le_length
  · rcases List.mem_append.1 hjob with hjob | hjob
    · exact absurd hid (hfresh.jobs job hjob)
    · obtain rfl := List.mem_singleton.1 hjob
      exact ⟨rfl, .refl⟩
  · rw [hrecords] at hrun
    rcases List.mem_append.1 hrun with hrun | hrun
    · exact absurd hid (hfresh.records run (hkept.subset hrun))
    · exact List.mem_singleton.1 hrun
  · rw [hrecords]
    exact List.mem_append_right _ List.mem_cons_self

theorem record_step (h : Underway id source tree startedAt s₀ T w) (hx : Happens tree w x w')
    (hstarts : ¬x.Starts id) (hjob : id ∈ w'.dispatcher.jobs.map (·.id)) :
    HasOnly id (.running id source.platform startedAt) w'.dispatcher.registry
      ∧ .running id source.platform startedAt ∈ w'.dispatcher.registry.records := by
  have hjob₀ : id ∈ w.dispatcher.jobs.map (·.id) :=
    List.count_pos_iff.1 (Nat.lt_of_lt_of_le (List.count_pos_iff.2 hjob) (hx.count_le hstarts))
  obtain ⟨honly, hmem⟩ := h.record hjob₀
  exact hx.keeps_record hstarts h.single hjob rfl rfl honly hmem

theorem own (h : Underway id source tree startedAt s₀ T w) {y : Exchange}
    (hx : Happens tree w (.asked id y) w') :
    Underway id source tree startedAt s₀ (T ++ [y]) w' := by
  have hstarts : ¬(Deed.asked id y).Starts id := fun h => h
  obtain ⟨old, hold, job, hjob, hid, hid', hsource, hasks, hanswered⟩ := hx.exists_job
  obtain ⟨rfl, hleads⟩ := h.jobs old hold hid
  have hsingle := Nat.le_trans (hx.count_le hstarts) h.single
  -- the job that made the step is the only one under its id
  refine ⟨h.answered.snoc hanswered, hsingle, fun job' hjob' hid'' => ?_,
    h.record_step hx hstarts⟩
  obtain rfl := eq_of_count_le_one hsingle hjob hjob' hid' hid''
  exact ⟨hsource.symm, hleads.snoc hasks⟩

theorem other (h : Underway id source tree startedAt s₀ T w) (hx : Happens tree w x w')
    (hasked : ∀ y, x ≠ .asked id y) (hstarts : ¬x.Starts id) (hstore : w'.store = w.store) :
    Underway id source tree startedAt s₀ T w' := by
  have hsingle := Nat.le_trans (hx.count_le hstarts) h.single
  refine ⟨hstore ▸ h.answered, hsingle, fun job hjob hid => ?_, h.record_step hx hstarts⟩
  rcases hx.job_cases hjob with ⟨old, hold, hid', hsource, hroutine⟩ | ⟨rfl, -⟩ | ⟨_, _, y, rfl, -⟩
  · rw [← hsource, ← hroutine]
    exact h.jobs old hold (hid'.trans hid)
  · exact absurd hid hstarts
  · exact absurd (hid ▸ rfl) (hasked y)

/-- **Under way.** A run stays under way while nothing else changes the store. -/
theorem of_undisturbed {w₀ : World σ} (h : Undisturbed tree id w₀ T w)
    (h₀ : Underway id source tree startedAt s₀ [] w₀) :
    Underway id source tree startedAt s₀ T w := by
  induction h with
  | refl => exact h₀
  | own _ hx ih => exact ih.own hx
  | other _ hx hasked hstarts hstore ih => exact ih.other hx hasked hstarts hstore

end Underway

/-! ## What it leaves -/

/-- Holds for the changes that come of some files: what they hold is stored, or an error with one of
them is logged. -/
inductive OfFiles (source : Extractor) (tree : FileTree) (files : List Candidate) : Change → Prop
  | ingest {file now x} (hfile : file ∈ files) (h : source.extract tree now file = .ok (some x)) :
      OfFiles source tree files (.ingest x.asset)
  | log {file cause} (hfile : file ∈ files) :
      OfFiles source tree files (.logError source.platform (Pass.fileError file cause))

/-- Holds when a run has not started, or stands at the file behind some that have had their
turns. -/
inductive StandsBehind (source : Extractor) (tree : FileTree) :
    List Candidate → Transcript → Routine RunOutcome → Prop
  | start : StandsBehind source tree [] [] (Pass.routine source.platform)
  | file {started before file after T p next}
      (hfiles : source.discover tree = .ok (before ++ file :: after))
      (turns : Yields (before.foldlM (Pass.processFile source.platform)
        { report.totalFiles := (before ++ file :: after).length }) T p) :
      StandsBehind source tree before
        (.read started :: .listed (.ok (before ++ file :: after)) :: T) (.extract file next)

/-- What some files have left of a store: changes have come of them, and no edge and no ledger entry
has been touched. -/
structure Leftover {σ : Type} [Backend σ] (source : Extractor) (tree : FileTree)
    (files : List Candidate) (s₀ : σ) (T : Transcript) (s : σ) : Prop where
  answered : Over source tree s₀ T s
  asked : ∀ now c o, .changed now c o ∈ T → OfFiles source tree files c
  edges : ∀ {κ : Type} (part : Part σ κ Change.touchesEdges), part.seen s = part.seen s₀
  ledger : ∀ {κ : Type} (part : Part σ κ Change.touchesLedger), part.seen s = part.seen s₀

/-- A store in memory has kept its edges and its ledger. -/
theorem Leftover.inMemory {source : Extractor} {files : List Candidate} {T : Transcript}
    {m₀ m : MemoryStore} (h : Leftover source tree files m₀ T m) :
    m.edges = m₀.edges ∧ m.ledger = m₀.ledger :=
  ⟨h.edges MemoryStore.edgePart, h.ledger MemoryStore.ledgerPart⟩

/-- A store in a database has kept the rows of its edges and of its ledger. -/
theorem Leftover.inDatabase {source : Extractor} {files : List Candidate} {T : Transcript}
    {s₀ s : RelationalStore} (h : Leftover source tree files s₀ T s) :
    s.database.edges.getD [] = s₀.database.edges.getD []
      ∧ s.database.ledger.getD [] = s₀.database.ledger.getD [] :=
  ⟨h.edges RelationalStore.edgePart, h.ledger RelationalStore.ledgerPart⟩

theorem OfFiles.touches {source : Extractor} {files : List Candidate} {c : Change}
    (h : OfFiles source tree files c) : c.touchesEdges = false ∧ c.touchesLedger = false := by
  cases h with
  | ingest => exact ⟨rfl, rfl⟩
  | log => exact ⟨rfl, rfl⟩

namespace StandsBehind

variable {source : Extractor} {files : List Candidate} {T : Transcript} {r : Routine RunOutcome}
  {s₀ s : σ}

/-- A run that has not started or stands at a file stands behind the files before. -/
theorem of_leads (hleads : Leads (Pass.routine source.platform) T r)
    (hover : Over source tree s₀ T s) (h : T = [] ∨ ∃ file next, r = .extract file next) :
    ∃ before, StandsBehind source tree before T r := by
  rcases h with rfl | ⟨file, next, rfl⟩
  · obtain rfl := hleads.eq_of_nil
    exact ⟨[], .start⟩
  · obtain ⟨started, before, after, T', p, rfl, hturns⟩ := Pass.turns_of_extract hleads
    exact ⟨before, .file (hover.eq_of_listed (by simp)).symm hturns⟩

/-- The changes that were asked for have come of the files behind which a run stands. -/
theorem ofFiles (h : StandsBehind source tree files T r) (hover : Over source tree s₀ T s)
    {t : Millis} {c : Change} {o : Except Store.Fault Unit} (hasked : .changed t c o ∈ T) :
    OfFiles source tree files c := by
  cases h with
  | start => exact absurd hasked List.not_mem_nil
  | @file started _ file after T' p next hfiles hturns =>
      -- the clock and the files are no changes, so one of the files before asked
      have hx : .changed t c o ∈ T' := by simpa using hasked
      obtain ⟨f, hf, outcome, hextracted, heq | hstep⟩ := Pass.steps_of_files hturns hx
      · exact nomatch heq
      · cases hstep with
        | ingest h =>
            have hmem := List.mem_cons_of_mem (.read started)
              (List.mem_cons_of_mem (.listed (.ok (files ++ file :: after))) hextracted)
            obtain ⟨now, hnow⟩ := hover.eq_of_extracted hmem
            exact .ingest hf (hnow.symm.trans h)
        | log => exact .log hf

/-- **Leftovers.** Where a run stands it has left what came of the files before. -/
theorem leftover (h : StandsBehind source tree files T r) (hover : Over source tree s₀ T s) :
    Leftover source tree files s₀ T s where
  answered := hover
  asked _ _ _ hasked := h.ofFiles hover hasked
  edges part := part.seen_of_over hover fun _ _ _ hasked => (h.ofFiles hover hasked).touches.1
  ledger part := part.seen_of_over hover fun _ _ _ hasked => (h.ofFiles hover hasked).touches.2

end StandsBehind

/-! ## When it has been stopped -/

/-- A run that has been stopped: it has no job, and no other record is remembered of it than one. -/
structure Stopped (id : String) (record : RunRecord) (d : Dispatcher) : Prop where
  gone : id ∉ d.jobs.map (·.id)
  only : HasOnly id record d.registry

namespace Stopped

variable {id : String} {record : RunRecord} {w w' : World σ} {x : Deed} {L : List Deed}

theorem not_asked (h : Stopped id record w.dispatcher) (hx : Happens tree w x w') (y : Exchange) :
    x ≠ .asked id y := by
  rintro rfl
  obtain ⟨old, hold, -, -, hid, -⟩ := hx.exists_job
  exact h.gone (List.mem_map.2 ⟨old, hold, hid⟩)

/-- What has been stopped stays so. -/
theorem step (h : Stopped id record w.dispatcher) (hx : Happens tree w x w')
    (hstarts : ¬x.Starts id) (hfinished : record.isFinished = true) :
    Stopped id record w'.dispatcher := by
  refine ⟨fun hmem => ?_, ?_⟩
  · -- no job comes back under an id but by a start
    have hpos := Nat.lt_of_lt_of_le (List.count_pos_iff.2 hmem) (hx.count_le hstarts)
    exact h.gone (List.count_pos_iff.1 hpos)
  · rcases hx.registry_cases with hsame | ⟨run, source, now, rfl, hdispatch⟩
      | ⟨run, outcome, now, hfinish, -⟩
    · exact hsame ▸ h.only
    · exact h.only.dispatch hstarts hdispatch
    · rw [hfinish, ← Registry.endRecord_of_finished run outcome now hfinished]
      exact h.only.finish run outcome now

end Stopped

/-- A record that is over is remembered until a run of its platform starts. -/
theorem Happens.remembers {w w' : World σ} {x : Deed} (hx : Happens tree w x w')
    {record : RunRecord} (hfinished : record.isFinished = true)
    (hmem : record ∈ w.dispatcher.registry.records) :
    record ∈ w'.dispatcher.registry.records
      ∨ ∃ run source, x = .dispatched run source ∧ source.platform = record.platform := by
  rcases hx.registry_cases with hsame | ⟨run, source, now, rfl, hdispatch⟩
    | ⟨run, outcome, now, hfinish, -⟩
  · exact .inl (hsame ▸ hmem)
  · by_cases hplatform : source.platform = record.platform
    · exact .inr ⟨run, source, rfl, hplatform⟩
    · -- room is made only among the runs of the platform that starts
      obtain ⟨kept, -, hkept, hrecords⟩ := Registry.records_of_dispatch hdispatch
      rw [hrecords]
      refine .inl (List.mem_append_left _ (hkept record hmem fun hpast => hplatform ?_))
      unfold Registry.isPast at hpast
      exact (of_decide_eq_true (Bool.and_eq_true_iff.1 hpast).1).symm
  · rw [hfinish, ← Registry.endRecord_of_finished run outcome now hfinished]
    exact .inl (Registry.mem_finish hmem run outcome now)

/-- **Stopped.** A run that has been stopped takes no step any more, and its record stays as it is
until a further run of its platform makes room. -/
theorem Stopped.steps {id : String} {record : RunRecord} {w w' : World σ} {L : List Deed}
    (h : Stopped id record w.dispatcher) (hfinished : record.isFinished = true)
    (hmem : record ∈ w.dispatcher.registry.records) (hsteps : Steps tree w L w')
    (hstarts : ∀ x ∈ L, ¬x.Starts id) :
    Stopped id record w'.dispatcher ∧ (∀ y, .asked id y ∉ L)
      ∧ (record ∈ w'.dispatcher.registry.records
        ∨ ∃ run source, .dispatched run source ∈ L ∧ source.platform = record.platform) := by
  induction hsteps with
  | refl => exact ⟨h, fun _ => List.not_mem_nil, .inl hmem⟩
  | @snoc L w' x w'' _ hx ih =>
      obtain ⟨hL, hlast⟩ := List.forall_mem_append.1 hstarts
      obtain ⟨hstopped, hasked, hkept⟩ := ih hL
      refine ⟨hstopped.step hx (hlast x List.mem_cons_self) hfinished, fun y hy => ?_, ?_⟩
      · rcases List.mem_append.1 hy with hy | hy
        · exact hasked y hy
        · exact hstopped.not_asked hx y (List.mem_singleton.1 hy).symm
      · rcases hkept with hkept | ⟨run, source, hrun, hplatform⟩
        · refine (hx.remembers hfinished hkept).imp_right ?_
          rintro ⟨run, source, rfl, hplatform⟩
          exact ⟨run, source, List.mem_append_right _ List.mem_cons_self, hplatform⟩
        · exact .inr ⟨run, source, List.mem_append_left _ hrun, hplatform⟩

/-- A run under way that is cancelled has been stopped, and its record tells the cancellation. -/
theorem Underway.stopped {id : String} {source : Extractor} {startedAt : Millis} {s₀ : σ}
    {T : Transcript} {w : World σ} (h : Underway id source tree startedAt s₀ T w)
    (hjob : id ∈ w.dispatcher.jobs.map (·.id)) (now : Millis) :
    Stopped id (.cancelled id source.platform startedAt now) (w.dispatcher.cancel id now)
      ∧ .cancelled id source.platform startedAt now
        ∈ (w.dispatcher.cancel id now).registry.records := by
  obtain ⟨honly, hmem⟩ := h.record hjob
  have hend : Registry.endRecord id .cancelled now (.running id source.platform startedAt)
      = .cancelled id source.platform startedAt now := if_pos ⟨rfl, rfl⟩
  rw [← hend]
  refine ⟨⟨fun hleft => ?_, honly.finish id .cancelled now⟩,
    Registry.mem_finish hmem id .cancelled now⟩
  obtain ⟨job, hjob, hid⟩ := List.mem_map.1 hleft
  exact of_decide_eq_true (List.mem_filter.1 hjob).2 hid

/-! ## Cancelling -/

/-- **Cancelling.** A run is cancelled before it has started or while it stands at a file, and since
it was dispatched nothing else has changed the store. Then the store has what the files before have
left, and the record tells the cancellation. Whatever happens from then on, as long as no other run
takes its id, the run asks for nothing, and its record stays as it is until it makes room for a
further run of its platform. -/
theorem cancel_leaves {σ : Type} [Backend σ] {tree : FileTree} {id : String} {source : Extractor}
    {permits : Option Nat} {startedAt : Millis} (now : Millis) {d d' : Dispatcher} {s₀ : σ}
    {T : Transcript} {w : World σ} {job : Job} (hfresh : d.Fresh id)
    (hdispatch : d.dispatch id source permits startedAt = .ok d')
    (hrun : Undisturbed tree id ⟨d', s₀⟩ T w) (hjob : job ∈ w.dispatcher.jobs) (hid : job.id = id)
    (hstands : T = [] ∨ ∃ file next, job.routine = .extract file next) :
    (∃ before, StandsBehind source tree before T job.routine
        ∧ Leftover source tree before s₀ T w.store)
      ∧ (w.dispatcher.cancel id now).registry.find? id
        = some (.cancelled id source.platform startedAt now)
      ∧ ∀ L w', Steps tree ⟨w.dispatcher.cancel id now, w.store⟩ L w' →
        (∀ x ∈ L, ¬x.Starts id) →
        (∀ y, .asked id y ∉ L)
          ∧ (w'.dispatcher.registry.find? id = some (.cancelled id source.platform startedAt now)
            ∨ w'.dispatcher.registry.find? id = none
              ∧ ∃ run other, .dispatched run other ∈ L ∧ other.platform = source.platform) := by
  have hunder := Underway.of_undisturbed hrun (Underway.start hfresh hdispatch)
  obtain ⟨rfl, hleads⟩ := hunder.jobs job hjob hid
  obtain ⟨hstopped, hmem⟩ := hunder.stopped (List.mem_map.2 ⟨job, hjob, hid⟩) now
  refine ⟨?_, hstopped.only.find?_of_mem hmem rfl, fun L w' hsteps hstarts => ?_⟩
  · obtain ⟨before, hbefore⟩ := StandsBehind.of_leads hleads hunder.answered hstands
    exact ⟨before, hbefore, hbefore.leftover hunder.answered⟩
  · obtain ⟨hstill, hasked, hkept⟩ := hstopped.steps rfl hmem hsteps hstarts
    refine ⟨hasked, ?_⟩
    rcases hkept with hkept | hroom
    · exact .inl (hstill.only.find?_of_mem hkept rfl)
    · exact hstill.only.find?.imp_right fun hnone => ⟨hnone, hroom⟩

/-- A run that goes on alone is undisturbed. -/
theorem Undisturbed.of_goesOn {id : String} {w w' : World σ} (h : GoesOn tree w w')
    (hids : ∀ job ∈ w.dispatcher.jobs, job.id = id) : ∃ T, Undisturbed tree id w T w' := by
  obtain ⟨L, hsteps, hown⟩ := h
  suffices hrun : ∃ T, Undisturbed tree id w T w' ∧ ∀ job ∈ w'.dispatcher.jobs, job.id = id by
    obtain ⟨T, hrun, -⟩ := hrun
    exact ⟨T, hrun⟩
  induction hsteps with
  | refl => exact ⟨[], .refl, hids⟩
  | @snoc L w' x w'' _ hx ih =>
      obtain ⟨hL, hlast⟩ := List.forall_mem_append.1 hown
      obtain ⟨T, hrun, hids'⟩ := ih hL
      have hids'' : ∀ job ∈ w''.dispatcher.jobs, job.id = id := by
        intro job hjob
        rcases hx.job_cases hjob with ⟨old, hold, hid, -⟩ | ⟨rfl, -⟩ | ⟨old, hold, _, -, hid, -⟩
        · exact hid.symm.trans (hids' old hold)
        · exact absurd (hlast _ List.mem_cons_self) not_false
        · exact hid.symm.trans (hids' old hold)
      cases hx with
      | asked place hjob hgate hy =>
          obtain rfl := hids' _ (List.mem_of_getElem? hjob)
          exact ⟨_, hrun.own (.asked place hjob hgate hy), hids''⟩
      | ended place hjob hdone =>
          exact ⟨T, hrun.other (.ended place hjob hdone) (fun _ => nofun) not_false rfl, hids''⟩
      | _ => exact absurd (hlast _ List.mem_cons_self) not_false

theorem cancel_leaves_linkedStanding :
    ∃ T job, Undisturbed {} "run" (⟨linkedStarted, {}⟩ : World MemoryStore) T
        ⟨linkedStanding.1, linkedStanding.2⟩
      ∧ job ∈ linkedStanding.1.jobs
      ∧ linkedStanding.2.assets.map (·.asset.id) = ["a"]
      ∧ (∃ before, StandsBehind linkedExtractor {} before T job.routine
        ∧ Leftover linkedExtractor {} before ({} : MemoryStore) T linkedStanding.2)
      ∧ (linkedStanding.1.cancel "run" 1).registry.find? "run"
        = some (.cancelled "run" "p" 0 1)
      ∧ ∀ L w', Steps {} ⟨linkedStanding.1.cancel "run" 1, linkedStanding.2⟩ L w' →
        (∀ x ∈ L, ¬x.Starts "run") → ∀ y, .asked "run" y ∉ L := by
  have hfresh : ({} : Dispatcher).Fresh "run" :=
    ⟨fun _ h => absurd h List.not_mem_nil, fun _ h => absurd h List.not_mem_nil⟩
  have hdispatch : ({} : Dispatcher).dispatch "run" linkedExtractor (some 1) 0
      = .ok linkedStarted := rfl
  have halone : ∀ job ∈ linkedStarted.jobs, job.id = "run" := List.forall_mem_singleton.2 rfl
  obtain ⟨T, hrun⟩ := Undisturbed.of_goesOn
    (Dispatcher.goesOn_advance {} 0 linkedStarted ({} : MemoryStore)) halone
  obtain ⟨file, next, hjobs⟩ : ∃ file next,
      linkedStanding.1.jobs = [⟨"run", linkedExtractor, .extract file next, some 0⟩] :=
    ⟨_, _, rfl⟩
  have hjob : (⟨"run", linkedExtractor, .extract file next, some 0⟩ : Job)
      ∈ linkedStanding.1.jobs := hjobs ▸ List.mem_cons_self
  obtain ⟨hleft, hrecord, hafter⟩ := cancel_leaves 1 hfresh hdispatch hrun hjob rfl
    (.inr ⟨file, next, rfl⟩)
  exact ⟨T, _, hrun, hjob, rfl, hleft, hrecord, fun L w' hL hstarts => (hafter L w' hL hstarts).1⟩

end ContentGraph
