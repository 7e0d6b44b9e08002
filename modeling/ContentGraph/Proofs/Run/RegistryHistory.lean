import ContentGraph.Run.Registry

/-!
# What can happen to a registry of runs

Runs are dispatched, end by themselves or are cancelled, are looked up and waited for, in any order
(`Watched.step`). This module says once what each operation does to the records: a dispatch is
refused or forgets some past runs and adds one (`Registry.dispatch_cases`), and the end of a run
changes no record but its own (`Registry.endRecord_cases`).
-/

namespace ContentGraph

/-! ## Histories -/

/-- A registry and those who wait for its runs. -/
structure Watched where
  registry : Registry
  waiters : List Waiter := []

/-- What is asked of a registry, or happens to it. -/
inductive Request
  | dispatch (id platform : String) (now : Millis)
  /-- The task of a run comes to its end. -/
  | complete (id : String) (outcome : RunOutcome) (now : Millis)
  | cancel (id : String) (now : Millis)
  | status (id : String)
  | wait (id : String)
  /-- The waiter at a place takes a step. -/
  | wake (place : Nat)

/-- Runs are dispatched under ids that no remembered run has. -/
def Request.IsFresh (r : Registry) : Request → Prop
  | .dispatch id _ _ => r.find? id = none
  | _ => True

/-- Holds for what can end a run. -/
def Request.Ends (run : String) : Request → Prop
  | .complete id _ _ => id = run
  | .cancel id _ => id = run
  | _ => False

/-- One step of a history. -/
def Watched.step (w : Watched) : Request → Watched
  | .dispatch id platform now => { w with registry := (w.registry.dispatch id platform now).2 }
  | .complete id outcome now => { w with registry := w.registry.finish id outcome now }
  | .cancel id now => { w with registry := w.registry.cancel id now }
  | .status _ => w
  | .wait id => { w with waiters := w.waiters ++ [.looking id] }
  | .wake place => { w with waiters := w.waiters.modify place (Waiter.step w.registry) }

/-- What a registry of some retention comes to, whatever happens to it. -/
inductive Reachable (retention : Nat) : Watched → Prop
  | start : Reachable retention ⟨{ retention }, []⟩
  | step {w : Watched} {q : Request} (h : Reachable retention w) (hq : q.IsFresh w.registry) :
      Reachable retention (w.step q)

namespace Registry

/-! ## Forgetting -/

variable {platform : String}

theorem forget_sublist (platform : String) (excess : Nat) (runs : List RunRecord) :
    (forget platform excess runs).Sublist runs := by
  fun_induction forget platform excess runs with
  | case1 runs => exact List.Sublist.refl runs
  | case2 => exact List.Sublist.refl []
  | case3 excess run runs hpast ih => exact ih.cons run
  | case4 excess run runs hpast ih => exact ih.cons_cons run

/-- Only past runs of the platform are forgotten. -/
theorem mem_forget_of_not_past {excess : Nat} {runs : List RunRecord} {run : RunRecord}
    (h : run ∈ runs) (hrun : ¬isPast platform run = true) : run ∈ forget platform excess runs := by
  fun_induction forget platform excess runs with
  | case1 runs => exact h
  | case2 => exact h
  | case3 excess first runs hpast ih =>
      rcases List.mem_cons.1 h with rfl | h
      · exact absurd hpast hrun
      · exact ih h
  | case4 excess first runs hpast ih =>
      rcases List.mem_cons.1 h with rfl | h
      · exact List.mem_cons_self
      · exact List.mem_cons_of_mem _ (ih h)

/-! ## Dispatching -/

theorem isActive_iff {run : RunRecord} :
    isActive platform run = true ↔ run.platform = platform ∧ run.isFinished = false := by
  unfold isActive
  rw [Bool.and_eq_true, decide_eq_true_iff, Bool.not_eq_true']

theorem not_isPast_of_unfinished {run : RunRecord} (h : run.isFinished = false) :
    ¬isPast platform run = true := by
  unfold isPast
  rw [h, Bool.and_false]
  exact Bool.false_ne_true

/-- **Dispatching.** A dispatch is refused by a run of the platform that is in progress; without one
it forgets some past runs of the platform, keeps all others and adds the new one. -/
theorem dispatch_cases (id platform : String) (now : Millis) (r : Registry) :
    (∃ run ∈ r.records, isActive platform run = true
        ∧ r.dispatch id platform now = (.error ⟨platform, run.id⟩, r))
      ∨ ((∀ run ∈ r.records, ¬isActive platform run = true)
        ∧ ∃ kept, kept.Sublist r.records
          ∧ (∀ run ∈ r.records, ¬isPast platform run = true → run ∈ kept)
          ∧ r.dispatch id platform now
            = (.ok (), { r with records := kept ++ [{ id, platform, startedAt := now }] })) := by
  unfold dispatch
  cases hactive : r.active? platform with
  | some run =>
      exact .inl ⟨run, List.mem_of_find?_eq_some hactive, List.find?_some hactive, rfl⟩
  | none =>
      exact .inr ⟨List.find?_eq_none.1 hactive, _, forget_sublist platform _ _,
        fun run hrun => mem_forget_of_not_past hrun, rfl⟩

/-! ## Ending -/

/-- What the end of a run makes of a record. -/
def endRecord (id : String) (outcome : RunOutcome) (now : Millis) (run : RunRecord) : RunRecord :=
  if run.id = id ∧ run.isFinished = false then run.finish outcome now else run

theorem finish_records (id : String) (outcome : RunOutcome) (now : Millis) (r : Registry) :
    (r.finish id outcome now).records = r.records.map (endRecord id outcome now) := rfl

@[simp] theorem isFinished_finish (outcome : RunOutcome) (now : Millis) (run : RunRecord) :
    (run.finish outcome now).isFinished = true := outcome.isTerminal_status

/-- **Ending.** The end of a run leaves a record as it was or finishes it, which keeps the id and the
platform. -/
theorem endRecord_cases (id : String) (outcome : RunOutcome) (now : Millis) (run : RunRecord) :
    endRecord id outcome now run = run
      ∨ (run.id = id ∧ run.isFinished = false
        ∧ endRecord id outcome now run = run.finish outcome now) := by
  unfold endRecord
  split
  · next h => exact .inr ⟨h.1, h.2, rfl⟩
  · exact .inl rfl

@[simp] theorem endRecord_id (id : String) (outcome : RunOutcome) (now : Millis)
    (run : RunRecord) : (endRecord id outcome now run).id = run.id := by
  obtain heq | ⟨-, -, heq⟩ := endRecord_cases id outcome now run
  · rw [heq]
  · rw [heq]
    rfl

variable {run : RunRecord}

theorem endRecord_of_ne {id : String} (outcome : RunOutcome) (now : Millis) (h : run.id ≠ id) :
    endRecord id outcome now run = run := if_neg fun hown => h hown.1

theorem endRecord_of_finished (id : String) (outcome : RunOutcome) (now : Millis)
    (h : run.isFinished = true) : endRecord id outcome now run = run := by
  refine if_neg fun hown => ?_
  rw [h] at hown
  exact nomatch hown.2

theorem mem_finish {r : Registry} (hrun : run ∈ r.records) (id : String) (outcome : RunOutcome)
    (now : Millis) : endRecord id outcome now run ∈ (r.finish id outcome now).records :=
  List.mem_map_of_mem hrun

end Registry

end ContentGraph
