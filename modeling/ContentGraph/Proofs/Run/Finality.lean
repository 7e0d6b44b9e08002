import ContentGraph.Proofs.Run.Chronicle
import ContentGraph.Proofs.Run.SingleFlight
import Mathlib.Data.List.Nodup

/-!
# The record of a run that is over

A run is ended by its task or by whoever cancels it, and the first of them wins. In the chronicle a
run that is over stays as it is (`mem_note`), and what a registry remembers stands in its chronicle.
Runs have ids of their own, so every later look at a run finds the record that its end made. Main
statement: whatever is asked in whatever order, a record turns from in progress to over at most once
and is final from then on (`final_of_history`).
-/

namespace ContentGraph

open Registry

/-! ## Answers -/

/-- What a waiter is told at its next step. -/
def Waiter.told (r : Registry) (waiter : Waiter) : Option RunRecord :=
  match waiter, waiter.step r with
  | .answered _, _ => none
  | _, .answered record => record
  | _, _ => none

/-- The record that a request is answered with. -/
def Watched.reply? (w : Watched) : Request → Option RunRecord
  | .status id => w.registry.find? id
  | .cancel id now => (w.registry.cancel id now).find? id
  | .wake place => (w.waiters[place]?).bind (Waiter.told w.registry)
  | _ => none

variable {r : Registry} {id : String} {run record : RunRecord}

theorem id_of_find? (h : r.find? id = some run) : run.id = id := by
  simpa using List.find?_some h

theorem find?_of_told {waiter : Waiter} (h : waiter.told r = some record) :
    r.find? record.id = some record := by
  cases waiter with
  | looking id => by_cases hfound : (r.find? id).isSome <;> simp [Waiter.told, Waiter.step, hfound] at h
  | watching id =>
      by_cases hover : (r.find? id).all (·.isFinished) <;> simp [Waiter.told, Waiter.step, hover] at h
  | reading id =>
      have hfound : r.find? id = some record := h
      rw [id_of_find? hfound]
      exact hfound
  | answered before => exact nomatch h

/-- A reply is what the registry remembers, before the request or behind it. -/
theorem find?_of_reply {w : Watched} {q : Request} (h : w.reply? q = some record) :
    w.registry.find? record.id = some record
      ∨ (w.step q).registry.find? record.id = some record := by
  cases q with
  | status id =>
      have hfound : w.registry.find? id = some record := h
      rw [id_of_find? hfound]
      exact .inl hfound
  | cancel id now =>
      have hfound : (w.registry.cancel id now).find? id = some record := h
      rw [id_of_find? hfound]
      exact .inr hfound
  | wake place =>
      obtain ⟨waiter, -, htold⟩ := Option.bind_eq_some_iff.1 h
      exact .inl (find?_of_told htold)
  | dispatch id platform now => exact nomatch h
  | complete id outcome now => exact nomatch h
  | wait id => exact nomatch h

/-! ## The chronicle -/

variable {all : List RunRecord} {q : Request}

/-- A request leaves a run of the chronicle as it is, or ends it. -/
theorem mem_note (hrun : run ∈ all) (q : Request) :
    run ∈ note all q ∨ (run.isFinished = false ∧ ∃ outcome now, run.finish outcome now ∈ note all q) := by
  have hend (id : String) (outcome : RunOutcome) (now : Millis) :
      run ∈ all.map (endRecord id outcome now)
        ∨ (run.isFinished = false ∧ ∃ outcome' now',
          run.finish outcome' now' ∈ all.map (endRecord id outcome now)) := by
    have hmem := List.mem_map_of_mem (f := endRecord id outcome now) hrun
    obtain heq | ⟨-, hunfinished, heq⟩ := endRecord_cases id outcome now run
    · exact .inl (heq ▸ hmem)
    · exact .inr ⟨hunfinished, outcome, now, heq ▸ hmem⟩
  cases q with
  | dispatch id platform now =>
      left
      simp only [note]
      split
      · exact hrun
      · exact List.mem_append_left _ hrun
  | complete id outcome now => exact hend id outcome now
  | cancel id now => exact hend id .cancelled now
  | status id => exact .inl hrun
  | wait id => exact .inl hrun
  | wake place => exact .inl hrun

theorem mem_note_of_finished (hrun : run ∈ all) (hfinished : run.isFinished = true)
    (q : Request) : run ∈ note all q := by
  obtain hmem | ⟨hunfinished, -⟩ := mem_note hrun q
  · exact hmem
  · rw [hfinished] at hunfinished
    exact nomatch hunfinished

/-- Every run of a chronicle is in progress or over. -/
theorem status_of_mem_note (h : ∀ run ∈ all, run.status = .running ∨ run.isFinished = true)
    (q : Request) : ∀ run ∈ note all q, run.status = .running ∨ run.isFinished = true := by
  have hend (id : String) (outcome : RunOutcome) (now : Millis) :
      ∀ run ∈ all.map (endRecord id outcome now), run.status = .running ∨ run.isFinished = true := by
    intro run hrun
    obtain ⟨before, hbefore, rfl⟩ := List.mem_map.1 hrun
    obtain heq | ⟨-, -, heq⟩ := endRecord_cases id outcome now before
    · rw [heq]
      exact h before hbefore
    · rw [heq]
      exact .inr (isFinished_finish outcome now before)
  cases q with
  | dispatch id platform now =>
      simp only [note]
      split
      · exact h
      · exact List.forall_mem_append.2 ⟨h, List.forall_mem_singleton.2 (.inl rfl)⟩
  | complete id outcome now => exact hend id outcome now
  | cancel id now => exact hend id .cancelled now
  | status id => exact h
  | wait id => exact h
  | wake place => exact h

theorem status_of_mem_chronicle (history : List Request) :
    ∀ run ∈ chronicle history, run.status = .running ∨ run.isFinished = true := by
  induction history using List.reverseRecOn with
  | nil => exact List.forall_mem_nil _
  | append_singleton history q ih =>
      rw [chronicle_concat]
      exact status_of_mem_note ih q

/-- Ids are added behind the ones that are there. -/
theorem ids_note (all : List RunRecord) (q : Request) :
    all.map (·.id) <+: (note all q).map (·.id) := by
  cases q with
  | dispatch id platform now =>
      simp only [note]
      split
      · exact List.prefix_rfl
      · rw [List.map_append]
        exact List.prefix_append _ _
  | complete id outcome now => exact (map_id_endRecord id outcome now all) ▸ List.prefix_rfl
  | cancel id now => exact (map_id_endRecord id .cancelled now all) ▸ List.prefix_rfl
  | status id => exact List.prefix_rfl
  | wait id => exact List.prefix_rfl
  | wake place => exact List.prefix_rfl

theorem ids_chronicle_append (history more : List Request) :
    (chronicle history).map (·.id) <+: (chronicle (history ++ more)).map (·.id) := by
  induction more using List.reverseRecOn with
  | nil => exact (List.append_nil history).symm ▸ List.prefix_rfl
  | append_singleton more q ih =>
      rw [← List.append_assoc, chronicle_concat]
      exact ih.trans (ids_note _ q)

theorem mem_chronicle_append {history : List Request} (hrun : run ∈ chronicle history)
    (hfinished : run.isFinished = true) (more : List Request) :
    run ∈ chronicle (history ++ more) := by
  induction more using List.reverseRecOn with
  | nil => rwa [List.append_nil]
  | append_singleton more q ih =>
      rw [← List.append_assoc, chronicle_concat]
      exact mem_note_of_finished ih hfinished q

/-! ## Positions in a history -/

/-- The record that a registry remembers of a run after so many requests of a history. -/
def recordAt (retention : Nat) (history : List Request) (id : String) (i : Nat) :
    Option RunRecord := (after retention (history.take i)).registry.find? id

variable {retention : Nat} {history : List Request} {i j : Nat}

theorem mem_chronicle_of_recordAt (h : recordAt retention history id i = some run) :
    run ∈ chronicle (history.take i) ∧ run.id = id :=
  ⟨(follows_after retention _).remembered.subset (List.mem_of_find?_eq_some h), id_of_find? h⟩

theorem nodup_ids_take (hids : ((chronicle history).map (·.id)).Nodup) (i : Nat) :
    ((chronicle (history.take i)).map (·.id)).Nodup := by
  have hprefix := ids_chronicle_append (history.take i) (history.drop i)
  rw [List.take_append_drop] at hprefix
  exact hids.sublist hprefix.sublist

/-- Runs of a chronicle are told apart by their ids. -/
theorem eq_of_mem_chronicle (hids : ((chronicle history).map (·.id)).Nodup) {run run' : RunRecord}
    (hrun : run ∈ chronicle history) (hrun' : run' ∈ chronicle history) (hid : run'.id = run.id) :
    run' = run := List.inj_on_of_nodup_map hids hrun' hrun hid

/-- Whoever looks at a run that is over finds the record that was found before. -/
theorem recordAt_eq (hids : ((chronicle history).map (·.id)).Nodup) (hij : i ≤ j)
    (hrun : recordAt retention history id i = some run) (hover : run.isFinished = true)
    {run' : RunRecord} (hrun' : recordAt retention history id j = some run') : run' = run := by
  obtain ⟨hmem, hid⟩ := mem_chronicle_of_recordAt hrun
  obtain ⟨hmem', hid'⟩ := mem_chronicle_of_recordAt hrun'
  have hlater := mem_chronicle_append hmem hover ((history.take j).drop i)
  have htake : history.take i = (history.take j).take i := by
    rw [List.take_take, Nat.min_eq_left hij]
  rw [htake, List.take_append_drop] at hlater
  exact eq_of_mem_chronicle (nodup_ids_take hids j) hlater hmem' (hid'.trans hid.symm)

/-- From one position to the next the record of a run stays or is ended. -/
theorem recordAt_step (hids : ((chronicle history).map (·.id)).Nodup)
    (hrun : recordAt retention history id i = some run) {run' : RunRecord}
    (hrun' : recordAt retention history id (i + 1) = some run') :
    run' = run ∨ (run.status = .running ∧ ∃ outcome now, run' = run.finish outcome now) := by
  obtain ⟨hmem, hid⟩ := mem_chronicle_of_recordAt hrun
  obtain ⟨hmem', hid'⟩ := mem_chronicle_of_recordAt hrun'
  have hunique {other : RunRecord} (hother : other ∈ chronicle (history.take (i + 1)))
      (heq : other.id = run.id) : run' = other :=
    eq_of_mem_chronicle (nodup_ids_take hids (i + 1)) hother hmem' (hid'.trans (hid ▸ heq).symm)
  by_cases hi : i < history.length
  · rw [List.take_succ_eq_append_getElem hi, chronicle_concat] at hunique
    obtain hsame | ⟨hunfinished, outcome, now, hended⟩ := mem_note hmem history[i]
    · exact .inl (hunique hsame rfl)
    · refine .inr ⟨?_, outcome, now, hunique hended rfl⟩
      refine (status_of_mem_chronicle _ run hmem).resolve_right fun hover => ?_
      rw [hunfinished] at hover
      exact nomatch hover
  · -- behind the end of the history nothing happens
    have hlong := Nat.le_of_not_lt hi
    rw [List.take_of_length_le (Nat.le_succ_of_le hlong)] at hunique
    rw [List.take_of_length_le hlong] at hmem
    exact .inl (hunique hmem rfl)

/-- The end of a run that is over changes nothing. -/
theorem finish_eq_of_final (hunique : ∀ run' ∈ r.records, run'.id = run.id → run' = run)
    (hover : run.isFinished = true) (outcome : RunOutcome) (now : Millis) :
    r.finish run.id outcome now = r := by
  have hsame : r.records.map (endRecord run.id outcome now) = r.records := by
    refine (List.map_congr_left fun run' hrun' => ?_).trans (List.map_id' _)
    by_cases hid : run'.id = run.id
    · rw [hunique run' hrun' hid]
      exact endRecord_of_finished _ outcome now hover
    · exact endRecord_of_ne outcome now hid
  exact congrArg (Registry.mk r.retention) hsame

/-! ## Finality -/

/-- At a position of a history a run turns from in progress to over. -/
def Turns (retention : Nat) (history : List Request) (id : String) (i : Nat) : Prop :=
  ∃ run run', recordAt retention history id i = some run ∧ run.status = .running
    ∧ recordAt retention history id (i + 1) = some run' ∧ run'.status.isTerminal = true

/-- What finality means of a run in a history. -/
structure Final (retention : Nat) (history : List Request) (id : String) : Prop where
  /-- A record changes only when its run ends. -/
  changes : ∀ i run run', recordAt retention history id i = some run →
    recordAt retention history id (i + 1) = some run' →
      run' = run ∨ (run.status = .running ∧ ∃ outcome now, run' = run.finish outcome now)
  once : ∀ i j, Turns retention history id i → Turns retention history id j → i = j
  /-- From the end on, whoever still finds the run finds the record of that moment. -/
  kept : ∀ i j run run', i ≤ j → recordAt retention history id i = some run →
    run.status.isTerminal = true → recordAt retention history id j = some run' → run' = run
  answered : ∀ i j (hj : j < history.length) run record, i ≤ j →
    recordAt retention history id i = some run → run.status.isTerminal = true →
      (after retention (history.take j)).reply? history[j] = some record → record.id = id →
        record = run
  /-- Whatever would end the run once more is discarded. -/
  discarded : ∀ i run outcome now, recordAt retention history id i = some run →
    run.status.isTerminal = true →
      (after retention (history.take i)).registry.finish id outcome now
        = (after retention (history.take i)).registry
  returned : ∀ i run now, recordAt retention history id i = some run →
    run.status.isTerminal = true →
      (after retention (history.take i)).reply? (.cancel id now) = some run

/-- **Finality.** Runs that have ids of their own turn from in progress to over at most once,
whatever happens in whatever order, and are found and answered with the same record from then on: a
completion behind a cancel is discarded, and a cancel behind a completion answers with it. -/
theorem final_of_history (retention : Nat) {history : List Request}
    (hids : ((chronicle history).map (·.id)).Nodup) (id : String) : Final retention history id := by
  have hdiscarded (i : Nat) (run : RunRecord) (outcome : RunOutcome) (now : Millis)
      (hrun : recordAt retention history id i = some run) (hover : run.status.isTerminal = true) :
      (after retention (history.take i)).registry.finish id outcome now
        = (after retention (history.take i)).registry := by
    obtain ⟨hmem, rfl⟩ := mem_chronicle_of_recordAt hrun
    refine finish_eq_of_final (fun run' hrun' hid => ?_) hover outcome now
    exact eq_of_mem_chronicle (nodup_ids_take hids i) hmem
      ((follows_after retention _).remembered.subset hrun') hid
  refine ⟨fun i run run' hrun hrun' => recordAt_step hids hrun hrun', ?_, fun i j run run' hij hrun hover =>
    recordAt_eq hids hij hrun hover, ?_, hdiscarded, fun i run now hrun hover => ?_⟩
  · -- a run that is over is not in progress later
    have hlate {i j : Nat} (hi : Turns retention history id i)
        (hj : Turns retention history id j) : ¬i < j := by
      obtain ⟨-, run, -, -, hrun, hover⟩ := hi
      obtain ⟨run', -, hrun', hrunning, -⟩ := hj
      intro hij
      rw [recordAt_eq hids hij hrun hover hrun'] at hrunning
      rw [hrunning] at hover
      exact nomatch hover
    intro i j hi hj
    have hij := hlate hi hj
    have hji := hlate hj hi
    omega
  · intro i j hj run record hij hrun hover hreply hid
    subst hid
    obtain hfound | hfound := find?_of_reply hreply
    · exact recordAt_eq hids hij hrun hover hfound
    · have hnext : recordAt retention history record.id (j + 1) = some record := by
        unfold recordAt
        rw [List.take_succ_eq_append_getElem hj, after_concat]
        exact hfound
      exact recordAt_eq hids (Nat.le_succ_of_le hij) hrun hover hnext
  · show ((after retention (history.take i)).registry.finish id .cancelled now).find? id = some run
    rw [hdiscarded i run .cancelled now hrun hover]
    exact hrun

/-- A run that was cancelled, completed behind that and forgotten at last. -/
theorem final_of_crossedRequests :
    ((chronicle crossedRequests).map (·.id)).Nodup ∧ Final 0 crossedRequests "1" := by
  have hids : ((chronicle crossedRequests).map (·.id)).Nodup := by decide
  exact ⟨hids, final_of_history 0 hids "1"⟩

end ContentGraph
