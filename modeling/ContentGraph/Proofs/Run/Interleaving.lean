import ContentGraph.Proofs.Run.Prefixes
import ContentGraph.Proofs.Run.RegistryHistory
import ContentGraph.Run.Dispatcher
import Mathlib.Data.List.Perm.Basic

/-!
# Runs and others that share a store

A world is a dispatcher with the store that its runs share. Runs take their steps in any order, each
of them one exchange, and others start runs, open gates, cancel, and change the store in between
(`Happens`). This module says once what a single deed does: to the jobs (`Happens.job_cases`), to
their ids (`Happens.ids`) and to what is seen of the store (`Happens.seen_eq`). The order in which a
dispatcher lets its runs go on is one of many (`Dispatcher.goesOn_advance`).
-/

namespace ContentGraph

open Routine (Asks Leads Answered)
open Store (Backend Change Fault)

/-- A dispatcher and the store that its runs share. -/
structure World (σ : Type) where
  dispatcher : Dispatcher
  store : σ

/-- What happens in a world. -/
inductive Deed
  /-- A run of an extractor starts. -/
  | dispatched (id : String) (source : Extractor)
  /-- A run asks for something and is answered. -/
  | asked (id : String) (x : Exchange)
  /-- A run comes to its end. -/
  | ended (id : String)
  /-- A run that is no longer in progress tells its end after all. -/
  | late (id : String)
  | granted (id : String)
  | cancelled (id : String)
  /-- Someone else asks for a change of the store. -/
  | served (now : Millis) (c : Change) (outcome : Except Fault Unit)

namespace Deed

/-- The change that was made. -/
def made : Deed → List (Millis × Change)
  | .asked _ x => Transcript.made [x]
  | .served now c (.ok ()) => [(now, c)]
  | _ => []

/-- Holds for what runs do by themselves. -/
def IsOwn : Deed → Prop
  | .asked _ _ | .ended _ => True
  | _ => False

end Deed

/-- What passing the gate of a job leaves of its permits; only an extraction needs one. -/
def Job.passed? (job : Job) : Option (Option Nat) :=
  match job.routine, job.permits with
  | .extract _ _, some 0 => none
  | .extract _ _, permits => some (permits.map (· - 1))
  | _, permits => some permits

namespace Dispatcher

/-- Holds for ids under which no run is in progress or remembered. -/
structure Fresh (id : String) (d : Dispatcher) : Prop where
  jobs : ∀ job ∈ d.jobs, job.id ≠ id
  records : ∀ run ∈ d.registry.records, run.id ≠ id

end Dispatcher

variable {σ : Type} [Backend σ]

/-- Puts another job in the place of one. -/
def Dispatcher.setJob (place : Nat) (job : Job) (d : Dispatcher) : Dispatcher :=
  { d with jobs := d.jobs.set place job }

/-- A job after its next step. -/
def Job.goOn (tree : FileTree) (now : Millis) (permits : Option Nat) (s : σ) (job : Job) : Job :=
  { job with routine := (job.routine.step job.source tree now s).1, permits }

/-- Ends the run at a place. -/
def Dispatcher.endJob (place : Nat) (id : String) (outcome : RunOutcome) (now : Millis)
    (d : Dispatcher) : Dispatcher :=
  ⟨d.registry.finish id outcome now, d.jobs.eraseIdx place⟩

/-- One deed in a world whose files lie in a tree. -/
inductive Happens (tree : FileTree) : World σ → Deed → World σ → Prop
  | dispatched {d d' s id source permits now} (hfresh : d.Fresh id)
      (h : d.dispatch id source permits now = .ok d') :
      Happens tree ⟨d, s⟩ (.dispatched id source) ⟨d', s⟩
  | asked {d s job now permits x} (place : Nat) (hjob : d.jobs[place]? = some job)
      (hgate : job.passed? = some permits)
      (hx : job.routine.exchange? job.source tree now s = some x) :
      Happens tree ⟨d, s⟩ (.asked job.id x)
        ⟨d.setJob place (job.goOn tree now permits s),
          (job.routine.step job.source tree now s).2⟩
  | ended {d s job outcome now} (place : Nat) (hjob : d.jobs[place]? = some job)
      (hdone : job.routine = .done outcome) :
      Happens tree ⟨d, s⟩ (.ended job.id) ⟨d.endJob place job.id outcome now, s⟩
  | late {d s id outcome now} (h : ∀ job ∈ d.jobs, job.id ≠ id) :
      Happens tree ⟨d, s⟩ (.late id) ⟨⟨d.registry.finish id outcome now, d.jobs⟩, s⟩
  | granted {d s id permits} : Happens tree ⟨d, s⟩ (.granted id) ⟨d.grant id permits, s⟩
  | cancelled {d s id now} : Happens tree ⟨d, s⟩ (.cancelled id) ⟨d.cancel id now, s⟩
  | served {d s now c o s'} (h : Backend.change now c s = (o, s')) :
      Happens tree ⟨d, s⟩ (.served now c o) ⟨d, s'⟩

/-- Deeds one after another, the last one last. -/
inductive Steps (tree : FileTree) (w : World σ) : List Deed → World σ → Prop
  | refl : Steps tree w [] w
  | snoc {L w' x w''} (h : Steps tree w L w') (hx : Happens tree w' x w'') :
      Steps tree w (L ++ [x]) w''

/-- A run that starts is registered, and its job comes last. -/
theorem Dispatcher.dispatch_ok {id : String} {source : Extractor} {permits : Option Nat}
    {now : Millis} {d d' : Dispatcher} (h : d.dispatch id source permits now = .ok d') :
    ∃ registry, d.registry.dispatch id source.platform now = (.ok (), registry)
      ∧ d' = ⟨registry, d.jobs ++ [⟨id, source, Pass.routine source.platform, permits⟩]⟩ := by
  unfold Dispatcher.dispatch at h
  split at h
  · exact nomatch h
  · next registry hregistry => exact ⟨registry, hregistry, (Except.ok.inj h).symm⟩

namespace Happens

variable {tree : FileTree} {w w' : World σ} {x : Deed}

/-! ## Jobs -/

/-- **Jobs.** After a deed each job is one of before that has made no progress, or was started, or
made the step. -/
theorem job_cases (h : Happens tree w x w') {job : Job} (hmem : job ∈ w'.dispatcher.jobs) :
    (∃ old ∈ w.dispatcher.jobs, old.id = job.id ∧ old.source = job.source
        ∧ old.routine = job.routine)
      ∨ (x = .dispatched job.id job.source ∧ job.routine = Pass.routine job.source.platform)
      ∨ ∃ old ∈ w.dispatcher.jobs, ∃ e, x = .asked job.id e ∧ old.id = job.id
        ∧ old.source = job.source ∧ Asks old.routine e job.routine
        ∧ Answered job.source tree e w.store w'.store := by
  cases h with
  | @dispatched d d' s id source permits now hfresh hdispatch =>
      obtain ⟨registry, -, rfl⟩ := Dispatcher.dispatch_ok hdispatch
      rcases List.mem_append.1 hmem with hmem | hmem
      · exact .inl ⟨job, hmem, rfl, rfl, rfl⟩
      · obtain rfl := List.mem_singleton.1 hmem
        exact .inr (.inl ⟨rfl, rfl⟩)
  | @asked d s old now permits e place hjob hgate he =>
      rcases List.mem_or_eq_of_mem_set hmem with hmem | rfl
      · exact .inl ⟨job, hmem, rfl, rfl, rfl⟩
      · obtain ⟨hasks, hanswered⟩ := Routine.asks_of_exchange? he
        exact .inr (.inr ⟨old, List.mem_of_getElem? hjob, e, rfl, rfl, rfl, hasks, hanswered⟩)
  | ended place hjob hdone => exact .inl ⟨job, List.mem_of_mem_eraseIdx hmem, rfl, rfl, rfl⟩
  | late h => exact .inl ⟨job, hmem, rfl, rfl, rfl⟩
  | granted =>
      obtain ⟨old, hold, rfl⟩ := List.mem_map.1 hmem
      refine .inl ⟨old, hold, ?_⟩
      split
      · exact ⟨rfl, rfl, rfl⟩
      · exact ⟨rfl, rfl, rfl⟩
  | cancelled => exact .inl ⟨job, (List.mem_filter.1 hmem).1, rfl, rfl, rfl⟩
  | served h => exact .inl ⟨job, hmem, rfl, rfl, rfl⟩

/-- **Ids.** A deed brings no id among the jobs but the new one of a run that starts. -/
theorem ids (h : Happens tree w x w') :
    (w'.dispatcher.jobs.map (·.id)).Sublist (w.dispatcher.jobs.map (·.id))
      ∨ ∃ id source, x = .dispatched id source ∧ id ∉ w.dispatcher.jobs.map (·.id)
        ∧ w'.dispatcher.jobs.map (·.id) = w.dispatcher.jobs.map (·.id) ++ [id] := by
  cases h with
  | @dispatched d d' s id source permits now hfresh hdispatch =>
      -- the id is new, since no job has it
      obtain ⟨registry, -, rfl⟩ := Dispatcher.dispatch_ok hdispatch
      refine .inr ⟨id, source, rfl, fun hmem => ?_, List.map_append⟩
      obtain ⟨job, hjob, hid⟩ := List.mem_map.1 hmem
      exact hfresh.jobs job hjob hid
  | @asked d s job now permits e place hjob hgate he =>
      have hsame : (d.setJob place (job.goOn tree now permits s)).jobs.map (·.id)
          = d.jobs.map (·.id) := by
        obtain ⟨hlt, rfl⟩ := List.getElem?_eq_some_iff.1 hjob
        have hlt' : place < (d.jobs.map (·.id)).length := by rwa [List.length_map]
        have hid : (d.jobs.map (·.id))[place] = d.jobs[place].id := List.getElem_map _
        show (d.jobs.set place _).map _ = _
        rw [List.map_set]
        show (d.jobs.map (·.id)).set place d.jobs[place].id = _
        rw [← hid, List.set_getElem_self]
      exact .inl (hsame ▸ .refl _)
  | ended place hjob hdone => exact .inl ((List.eraseIdx_sublist _ _).map _)
  | late h => exact .inl (.refl _)
  | @granted d s id permits =>
      have hsame : (d.grant id permits).jobs.map (·.id) = d.jobs.map (·.id) := by
        show List.map _ (List.map _ _) = _
        rw [List.map_map]
        refine List.map_congr_left fun job _ => ?_
        show (if job.id = id then _ else job : Job).id = job.id
        split
        · rfl
        · rfl
      exact .inl (hsame ▸ .refl _)
  | cancelled => exact .inl (List.filter_sublist.map _)
  | served h => exact .inl (.refl _)

/-- Who asks for something is a job, which goes on with the answer. -/
theorem exists_job {run : String} {y : Exchange} (h : Happens tree w (.asked run y) w') :
    ∃ old ∈ w.dispatcher.jobs, ∃ job ∈ w'.dispatcher.jobs, old.id = run ∧ job.id = run
      ∧ old.source = job.source ∧ Asks old.routine y job.routine
      ∧ Answered old.source tree y w.store w'.store := by
  cases h with
  | asked place hjob hgate hy =>
      obtain ⟨hasks, hanswered⟩ := Routine.asks_of_exchange? hy
      obtain ⟨hlt, -⟩ := List.getElem?_eq_some_iff.1 hjob
      exact ⟨_, List.mem_of_getElem? hjob, _, List.mem_set hlt _, rfl, rfl, rfl, hasks, hanswered⟩

/-! ## The registry -/

/-- **The registry.** A deed leaves the registry, or starts a run, or ends one that has no job any
more. -/
theorem registry_cases (h : Happens tree w x w') :
    w'.dispatcher.registry = w.dispatcher.registry
      ∨ (∃ run source now, x = .dispatched run source
        ∧ w.dispatcher.registry.dispatch run source.platform now
          = (.ok (), w'.dispatcher.registry))
      ∨ ∃ run outcome now,
        w'.dispatcher.registry = w.dispatcher.registry.finish run outcome now
          ∧ ((w.dispatcher.jobs.map (·.id)).count run ≤ 1 →
            run ∉ w'.dispatcher.jobs.map (·.id)) := by
  cases h with
  | @dispatched d d' s id source permits now hfresh hdispatch =>
      obtain ⟨registry, hregistry, rfl⟩ := Dispatcher.dispatch_ok hdispatch
      exact .inr (.inl ⟨id, source, now, rfl, hregistry⟩)
  | asked place hjob hgate he => exact .inl rfl
  | @ended d s job outcome now place hjob hdone =>
      refine .inr (.inr ⟨job.id, outcome, now, rfl, fun hcount hmem => ?_⟩)
      -- its job has been taken away, and there was no other under its id
      obtain ⟨hlt, rfl⟩ := List.getElem?_eq_some_iff.1 hjob
      change (d.jobs.map (·.id)).count d.jobs[place].id ≤ 1 at hcount
      have hperm := (List.getElem_cons_eraseIdx_perm hlt).map (·.id)
      have hsame := hperm.count_eq d.jobs[place].id
      rw [List.map_cons, List.count_cons_self] at hsame
      have hpos : 0 < ((d.jobs.eraseIdx place).map (·.id)).count d.jobs[place].id :=
        List.count_pos_iff.2 hmem
      omega
  | @late d s id outcome now h =>
      refine .inr (.inr ⟨id, outcome, now, rfl, fun _ hmem => ?_⟩)
      obtain ⟨job, hjob, hid⟩ := List.mem_map.1 hmem
      exact h job hjob hid
  | granted => exact .inl rfl
  | @cancelled d s id now =>
      refine .inr (.inr ⟨id, .cancelled, now, rfl, fun _ hmem => ?_⟩)
      obtain ⟨job, hjob, hid⟩ := List.mem_map.1 hmem
      exact of_decide_eq_true (List.mem_filter.1 hjob).2 hid
  | served h => exact .inl rfl

/-! ## The store -/

/-- **The store.** In every view the changes that were made show. -/
theorem seen_eq {κ : Type} {effect : Millis → Change → κ → κ} (v : View σ κ effect)
    (h : Happens tree w x w') : v.seen w'.store = replay effect x.made (v.seen w.store) := by
  cases h with
  | asked place hjob hgate he =>
      obtain ⟨-, hanswered⟩ := Routine.asks_of_exchange? he
      exact v.seen_of_answered hanswered
  | @served d s now c o s' h =>
      cases o with
      | ok _ => exact v.made h
      | error e => exact v.failed h
  | _ => rfl

end Happens

/-! ## The order of a dispatcher

A dispatcher lets each run go on until it is over or stands at its gate, one run after the other. -/

theorem Steps.trans {tree : FileTree} {w w' w'' : World σ} {L L' : List Deed}
    (h : Steps tree w L w') (h' : Steps tree w' L' w'') : Steps tree w (L ++ L') w'' := by
  induction h' with
  | refl =>
      rw [List.append_nil]
      exact h
  | snoc _ hx ih =>
      rw [← List.append_assoc]
      exact .snoc ih hx

/-- Holds when runs come by themselves from one world to another. -/
def GoesOn (tree : FileTree) (w w' : World σ) : Prop :=
  ∃ L, Steps tree w L w' ∧ ∀ x ∈ L, x.IsOwn

namespace GoesOn

variable {tree : FileTree} {w w' w'' : World σ}

theorem refl (w : World σ) : GoesOn tree w w := ⟨[], .refl, fun _ h => absurd h List.not_mem_nil⟩

theorem single {x : Deed} (h : Happens tree w x w') (hx : x.IsOwn) : GoesOn tree w w' :=
  ⟨[x], .snoc .refl h, List.forall_mem_singleton.2 hx⟩

theorem trans (h : GoesOn tree w w') (h' : GoesOn tree w' w'') : GoesOn tree w w'' := by
  obtain ⟨L, hL, hown⟩ := h
  obtain ⟨L', hL', hown'⟩ := h'
  exact ⟨L ++ L', hL.trans hL', List.forall_mem_append.2 ⟨hown, hown'⟩⟩

end GoesOn

namespace Dispatcher

theorem getElem?_setJob {d : Dispatcher} {place : Nat} {old job : Job}
    (h : d.jobs[place]? = some old) : (d.setJob place job).jobs[place]? = some job := by
  obtain ⟨hlt, -⟩ := List.getElem?_eq_some_iff.1 h
  exact List.getElem?_set_self hlt

theorem setJob_setJob (d : Dispatcher) (place : Nat) (job job' : Job) :
    (d.setJob place job).setJob place job' = d.setJob place job' := by
  unfold setJob
  rw [List.set_set]

theorem setJob_self {d : Dispatcher} {place : Nat} {job : Job} (h : d.jobs[place]? = some job) :
    d.setJob place job = d := by
  obtain ⟨hlt, rfl⟩ := List.getElem?_eq_some_iff.1 h
  unfold setJob
  rw [List.set_getElem_self]

/-- One step, and then what follows it at the same place. -/
theorem goesOn_after {tree : FileTree} (now : Millis) {place : Nat} {permits : Option Nat}
    {x : Exchange} {d : Dispatcher} {s s' : σ} {old job : Job} (hjob : d.jobs[place]? = some old)
    (hgate : old.passed? = some permits)
    (hx : old.routine.exchange? old.source tree now s = some x)
    (hrest : GoesOn tree ⟨d.setJob place (old.goOn tree now permits s),
      (old.routine.step old.source tree now s).2⟩
      ⟨(d.setJob place (old.goOn tree now permits s)).setJob place job, s'⟩) :
    GoesOn tree ⟨d, s⟩ ⟨d.setJob place job, s'⟩ := by
  rw [setJob_setJob] at hrest
  exact (GoesOn.single (.asked place hjob hgate hx) trivial).trans hrest

/-- To go on until the end or the gate is to take steps. -/
theorem goesOn_proceed (tree : FileTree) (now : Millis) {id : String} {source : Extractor}
    {place : Nat} (r : Routine RunOutcome) {permits : Option Nat} {d : Dispatcher} {s : σ}
    (hjob : d.jobs[place]? = some ⟨id, source, r, permits⟩) :
    GoesOn tree ⟨d, s⟩
      ⟨d.setJob place ⟨id, source, (r.proceed source tree now permits s).1.1,
        (r.proceed source tree now permits s).1.2⟩, (r.proceed source tree now permits s).2⟩ := by
  induction r generalizing permits d s with
  | done y => exact (setJob_self hjob).symm ▸ .refl _
  | clock next ih => exact goesOn_after now hjob rfl rfl (ih _ (getElem?_setJob hjob))
  | discover next ih => exact goesOn_after now hjob rfl rfl (ih _ (getElem?_setJob hjob))
  | extract file next ih =>
      -- without a permit the run stands where it is
      match permits with
      | none => exact goesOn_after now hjob rfl rfl (ih _ (getElem?_setJob hjob))
      | some 0 => exact (setJob_self hjob).symm ▸ .refl _
      | some (n + 1) => exact goesOn_after now hjob rfl rfl (ih _ (getElem?_setJob hjob))
  | change c next ih => exact goesOn_after now hjob rfl rfl (ih _ (getElem?_setJob hjob))

/-- A dispatcher with jobs that still wait for their turn behind those that had it. -/
def before (d : Dispatcher) (waiting : List Job) : Dispatcher :=
  { d with jobs := d.jobs ++ waiting }

theorem setJob_before (d : Dispatcher) (job job' : Job) (waiting : List Job) :
    (d.before (job :: waiting)).setJob d.jobs.length job' = d.before (job' :: waiting) := by
  unfold before setJob
  rw [List.set_append_right _ _ (Nat.le_refl _), Nat.sub_self]
  rfl

theorem getElem?_before (d : Dispatcher) (job : Job) (waiting : List Job) :
    (d.before (job :: waiting)).jobs[d.jobs.length]? = some job := by
  unfold before
  simp

theorem before_concat (d : Dispatcher) (job : Job) (waiting : List Job) :
    before { d with jobs := d.jobs ++ [job] } waiting = d.before (job :: waiting) := by
  unfold before
  rw [List.append_assoc]
  rfl

/-- The run that has the turn comes to its end. -/
theorem goesOn_end (tree : FileTree) (now : Millis) (d : Dispatcher) (s : σ) (job : Job)
    (waiting : List Job) {outcome : RunOutcome} (hdone : job.routine = .done outcome) :
    GoesOn tree ⟨d.before (job :: waiting), s⟩
      ⟨before { d with registry := d.registry.finish job.id outcome now } waiting, s⟩ := by
  have hrest : (d.jobs ++ job :: waiting).eraseIdx d.jobs.length = d.jobs ++ waiting := by
    rw [List.eraseIdx_append_of_length_le (Nat.le_refl _), Nat.sub_self]
    rfl
  have hended : Happens tree ⟨d.before (job :: waiting), s⟩ (.ended job.id)
      ⟨(d.before (job :: waiting)).endJob d.jobs.length job.id outcome now, s⟩ :=
    .ended d.jobs.length (getElem?_before d job waiting) hdone
  unfold before endJob at *
  rw [hrest] at hended
  exact .single hended trivial

/-- To let one run go on is to take steps. -/
theorem goesOn_resume (tree : FileTree) (now : Millis) (d : Dispatcher) (s : σ) (job : Job)
    (waiting : List Job) :
    GoesOn tree ⟨d.before (job :: waiting), s⟩
      ⟨(resume tree now d s job).1.before waiting, (resume tree now d s job).2⟩ := by
  have hsteps := goesOn_proceed tree now (s := s) job.routine (getElem?_before d job waiting)
  rw [setJob_before] at hsteps
  unfold resume
  generalize job.routine.proceed job.source tree now job.permits s = out at hsteps ⊢
  obtain ⟨⟨r, permits⟩, s'⟩ := out
  cases r with
  | done outcome =>
      exact hsteps.trans (goesOn_end tree now d s' ⟨job.id, job.source, .done outcome, permits⟩
        waiting rfl)
  | _ =>
      show GoesOn tree _ ⟨before { d with jobs := d.jobs ++ [_] } waiting, s'⟩
      rw [before_concat]
      exact hsteps

/-- **Turns.** To let every run go on is one order of taking steps. -/
theorem goesOn_advance (tree : FileTree) (now : Millis) (d : Dispatcher) (s : σ) :
    GoesOn tree ⟨d, s⟩ ⟨(d.advance tree now s).1, (d.advance tree now s).2⟩ := by
  -- by induction on the runs that still wait for their turn
  have rest : ∀ (waiting : List Job) (d : Dispatcher) (s : σ),
      GoesOn tree ⟨d.before waiting, s⟩
        ⟨(waiting.foldl (fun p job => resume tree now p.1 p.2 job) (d, s)).1,
          (waiting.foldl (fun p job => resume tree now p.1 p.2 job) (d, s)).2⟩ := by
    intro waiting
    induction waiting with
    | nil =>
        intro d s
        unfold before
        rw [List.append_nil]
        exact .refl _
    | cons job waiting ih =>
        intro d s
        exact (goesOn_resume tree now d s job waiting).trans
          (ih (resume tree now d s job).1 (resume tree now d s job).2)
  exact rest d.jobs { d with jobs := [] } s

end Dispatcher

/-! ## A run of two files -/

/-- An extractor of two files, the second of which links to the first. -/
def linkedExtractor : Extractor where
  platform := "p"
  source := "s"
  discover _ := .ok [⟨"/a", "a"⟩, ⟨"/b", "b"⟩]
  extract _ _ file :=
    let asset (id : String) : Asset := ⟨id, id, "", .asset, "s", .untyped []⟩
    if file.relative = "a" then .ok (some ⟨asset "a", []⟩) else .ok (some ⟨asset "b", ["a"]⟩)

/-- A run of it that may extract from one file. -/
def linkedStarted : Dispatcher where
  registry := { records := [{ id := "run", platform := "p", startedAt := 0 }] }
  jobs := [⟨"run", linkedExtractor, Pass.routine "p", some 1⟩]

/-- The run stands at its second file. -/
def linkedStanding : Dispatcher × MemoryStore := linkedStarted.advance {} 0 {}

end ContentGraph
