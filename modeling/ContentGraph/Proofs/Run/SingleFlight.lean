import ContentGraph.Proofs.Run.RegistryHistory

/-!
# One run of a platform at a time

The invariant is `Sound`: ids are unique, of each platform at most one remembered run is in
progress, and a record tells an end and a result just when its run is over. Every step keeps it
(`Sound.step`). Main statement: whatever happens to a registry, runs of a platform exclude each
other, and a run in progress stays remembered until it ends (`singleFlight_of_reachable`).
-/

namespace ContentGraph

namespace Registry

/-- What holds of a registry at all times. -/
structure Sound (r : Registry) : Prop where
  ids : (r.records.map (·.id)).Nodup
  single : ∀ platform, r.records.countP (isActive platform) ≤ 1
  ended : ∀ run ∈ r.records,
    run.result.isSome = run.isFinished ∧ run.finishedAt.isSome = run.isFinished

/-- An empty registry is sound. -/
theorem sound_empty (retention : Nat) : Sound { retention } where
  ids := List.nodup_nil
  single _ := Nat.zero_le 1
  ended _ h := absurd h List.not_mem_nil

variable {r : Registry} {id platform : String} {now : Millis}

/-! ## Dispatching -/

/-- A new run is in progress, and it is of its platform alone. -/
theorem isActive_new (id platform other : String) (now : Millis) :
    isActive other { id, platform, startedAt := now } = decide (platform = other) := by
  unfold isActive RunRecord.isFinished
  exact Bool.and_true _

/-- A dispatch under a fresh id keeps a registry sound. -/
theorem Sound.dispatch (h : Sound r) (hfresh : r.find? id = none) :
    Sound (r.dispatch id platform now).2 := by
  obtain ⟨run, -, -, hrefused⟩ | ⟨hidle, kept, hkept, -, hstarted⟩ :=
    dispatch_cases id platform now r
  · rw [hrefused]
    exact h
  · rw [hstarted]
    -- what is kept has the ids of before, and the new one is fresh
    have hnew : id ∉ r.records.map (·.id) := fun hmem => by
      obtain ⟨run, hrun, hid⟩ := List.mem_map.1 hmem
      exact List.find?_eq_none.1 hfresh run hrun (decide_eq_true hid)
    refine ⟨?_, fun other => ?_, ?_⟩
    · show ((kept ++ [_]).map RunRecord.id).Nodup
      rw [List.map_append]
      refine List.nodup_append.2 ⟨h.ids.sublist (hkept.map _), List.pairwise_singleton _ _, ?_⟩
      intro a ha b hb heq
      obtain rfl := List.mem_singleton.1 hb
      exact hnew (heq ▸ (hkept.map RunRecord.id).subset ha)
    · show (kept ++ [_]).countP (isActive other) ≤ 1
      rw [List.countP_append, List.countP_singleton, isActive_new]
      by_cases hp : platform = other
      · -- the dispatch was not refused, so the new run is the only one
        subst hp
        have hnone : kept.countP (isActive platform) = 0 :=
          List.countP_eq_zero.2 fun run hrun => hidle run (hkept.subset hrun)
        have hone : (if decide (platform = platform) = true then 1 else 0) = 1 :=
          if_pos (decide_eq_true rfl)
        omega
      · rw [if_neg fun hd => hp (of_decide_eq_true hd)]
        exact Nat.le_trans hkept.countP_le (h.single other)
    · exact List.forall_mem_append.2
        ⟨fun run hrun => h.ended run (hkept.subset hrun), List.forall_mem_singleton.2 ⟨rfl, rfl⟩⟩

/-! ## Ending -/

/-- The end of a run keeps a registry sound. -/
theorem Sound.finish (h : Sound r) (id : String) (outcome : RunOutcome) (now : Millis) :
    Sound (r.finish id outcome now) := by
  refine ⟨?_, fun platform => ?_, fun run hrun => ?_⟩
  · have hids : (r.records.map (endRecord id outcome now)).map (·.id) = r.records.map (·.id) := by
      rw [List.map_map]
      exact List.map_congr_left fun run _ => endRecord_id id outcome now run
    rw [finish_records, hids]
    exact h.ids
  · rw [finish_records, List.countP_map]
    -- a run that is in progress now was so before
    refine Nat.le_trans (List.countP_mono_left fun run _ hactive => ?_) (h.single platform)
    obtain ⟨hplatform, hunfinished⟩ := isActive_iff.1 hactive
    obtain heq | ⟨-, -, heq⟩ := endRecord_cases id outcome now run
    · rw [heq] at hplatform hunfinished
      exact isActive_iff.2 ⟨hplatform, hunfinished⟩
    · rw [heq, isFinished_finish] at hunfinished
      exact nomatch hunfinished
  · rw [finish_records] at hrun
    obtain ⟨before, hbefore, rfl⟩ := List.mem_map.1 hrun
    obtain heq | ⟨-, -, heq⟩ := endRecord_cases id outcome now before
    · rw [heq]
      exact h.ended before hbefore
    · rw [heq, isFinished_finish]
      exact ⟨rfl, rfl⟩

end Registry

/-! ## Histories -/

open Registry

/-- **Step.** Whatever happens to a sound registry, it stays sound. -/
theorem Registry.Sound.step {w : Watched} (h : Sound w.registry) {q : Request}
    (hq : q.IsFresh w.registry) : Sound (w.step q).registry := by
  cases q with
  | dispatch id platform now => exact h.dispatch hq
  | complete id outcome now => exact h.finish id outcome now
  | cancel id now => exact h.finish id .cancelled now
  | status id => exact h
  | wait id => exact h
  | wake place => exact h

/-- **Run.** A registry is sound at all times. -/
theorem Reachable.sound {retention : Nat} {w : Watched} (h : Reachable retention w) :
    Sound w.registry := by
  induction h with
  | start => exact sound_empty retention
  | step _ hq ih => exact ih.step hq

/-- Of two active runs of a platform in a sound registry each is the other. -/
theorem Registry.Sound.eq_of_isActive {r : Registry} (h : Sound r) {platform : String}
    {run run' : RunRecord} (hrun : run ∈ r.records) (hactive : isActive platform run = true)
    (hrun' : run' ∈ r.records) (hactive' : isActive platform run' = true) : run = run' := by
  have hlength : (r.records.filter (isActive platform)).length ≤ 1 := by
    rw [← List.countP_eq_length_filter]
    exact h.single platform
  have hmem := List.mem_filter.2 ⟨hrun, hactive⟩
  have hmem' := List.mem_filter.2 ⟨hrun', hactive'⟩
  match hfilter : r.records.filter (isActive platform) with
  | [] =>
      rw [hfilter] at hmem
      exact absurd hmem List.not_mem_nil
  | [only] =>
      rw [hfilter] at hmem hmem'
      rw [List.mem_singleton.1 hmem, List.mem_singleton.1 hmem']
  | _ :: _ :: _ =>
      rw [hfilter] at hlength
      exact absurd (Nat.le_of_succ_le_succ hlength) (Nat.not_succ_le_zero _)

/-- A run in progress stays as it is or is ended by what can end it. -/
theorem Watched.mem_step {w : Watched} (q : Request) {run : RunRecord}
    (hrun : run ∈ w.registry.records) (hunfinished : run.isFinished = false) :
    run ∈ (w.step q).registry.records ∨ (q.Ends run.id ∧ ∃ outcome now,
      run.finish outcome now ∈ (w.step q).registry.records) := by
  have hfinish (id : String) (outcome : RunOutcome) (now : Millis) :
      run ∈ (w.registry.finish id outcome now).records
        ∨ (id = run.id ∧ run.finish outcome now ∈ (w.registry.finish id outcome now).records) := by
    have hmem := List.mem_map_of_mem (f := endRecord id outcome now) hrun
    obtain heq | ⟨hid, -, heq⟩ := endRecord_cases id outcome now run
    · exact .inl (heq ▸ hmem)
    · exact .inr ⟨hid.symm, heq ▸ hmem⟩
  cases q with
  | dispatch id platform now =>
      left
      show run ∈ (w.registry.dispatch id platform now).2.records
      obtain ⟨_, -, -, hrefused⟩ | ⟨-, kept, -, hkept, hstarted⟩ :=
        dispatch_cases id platform now w.registry
      · rw [hrefused]
        exact hrun
      · -- only past runs are forgotten
        rw [hstarted]
        exact List.mem_append_left _ (hkept run hrun (not_isPast_of_unfinished hunfinished))
  | complete id outcome now =>
      exact (hfinish id outcome now).imp_right fun ⟨hid, hmem⟩ => ⟨hid, outcome, now, hmem⟩
  | cancel id now =>
      exact (hfinish id .cancelled now).imp_right fun ⟨hid, hmem⟩ => ⟨hid, .cancelled, now, hmem⟩
  | status id => exact .inl hrun
  | wait id => exact .inl hrun
  | wake place => exact .inl hrun

/-- What single flight means of a registry and what may happen to it next. -/
structure SingleFlight (w : Watched) : Prop where
  /-- Of each platform at most one remembered run is in progress. -/
  single : ∀ platform, w.registry.records.countP (isActive platform) ≤ 1
  /-- A dispatch is refused just when there is one, and the refusal names it. -/
  refused : ∀ id platform now refusal,
    (w.registry.dispatch id platform now).1 = .error refusal
      ↔ ∃ run ∈ w.registry.records, run.platform = platform ∧ run.status.isTerminal = false
        ∧ refusal = ⟨platform, run.id⟩
  unchanged : ∀ id platform now refusal,
    (w.registry.dispatch id platform now).1 = .error refusal →
      (w.registry.dispatch id platform now).2 = w.registry
  /-- A run in progress is remembered until it is completed or cancelled, and with its end. -/
  kept : ∀ q, ∀ run ∈ w.registry.records, run.status.isTerminal = false →
    run ∈ (w.step q).registry.records ∨ (q.Ends run.id ∧ ∃ outcome now,
      run.finish outcome now ∈ (w.step q).registry.records)
  ended : ∀ run ∈ w.registry.records, run.result.isSome = run.status.isTerminal
    ∧ run.finishedAt.isSome = run.status.isTerminal

/-- **Single flight.** Whatever happens to a registry, at most one run of each platform is in
progress, a dispatch is refused just by that run and changes nothing then, a run in progress is not
forgotten, and a record tells a result and an end just when its run is over. -/
theorem singleFlight_of_reachable {retention : Nat} {w : Watched} (h : Reachable retention w) :
    SingleFlight w := by
  have hsound := h.sound
  refine ⟨hsound.single, fun id platform now refusal => ⟨fun hrefusal => ?_, ?_⟩,
    fun id platform now refusal hrefusal => ?_, fun q run hrun hunfinished =>
      Watched.mem_step q hrun hunfinished, hsound.ended⟩
  · obtain ⟨run, hrun, hactive, hrefused⟩ | ⟨-, _, -, -, hstarted⟩ :=
      dispatch_cases id platform now w.registry
    · rw [hrefused] at hrefusal
      obtain ⟨hplatform, hunfinished⟩ := isActive_iff.1 hactive
      exact ⟨run, hrun, hplatform, hunfinished, (Except.error.inj hrefusal).symm⟩
    · rw [hstarted] at hrefusal
      exact nomatch hrefusal
  · rintro ⟨run, hrun, hplatform, hunfinished, rfl⟩
    have hactive : isActive platform run = true := isActive_iff.2 ⟨hplatform, hunfinished⟩
    -- the run that the refusal names is this one, for there is no other
    obtain ⟨run', hrun', hactive', hrefused⟩ | ⟨hidle, -⟩ :=
      dispatch_cases id platform now w.registry
    · rw [hrefused, hsound.eq_of_isActive hrun hactive hrun' hactive']
    · exact absurd hactive (hidle run hrun)
  · obtain ⟨run, -, -, hrefused⟩ | ⟨-, _, -, -, hstarted⟩ :=
      dispatch_cases id platform now w.registry
    · rw [hrefused]
    · rw [hstarted] at hrefusal
      exact nomatch hrefusal

/-- A history without retention: a dispatch is refused, a run ends after it was cancelled, and the
next dispatch forgets it while a run of another platform is in progress. -/
def crossedRequests : List Request := [
  .dispatch "1" "docs" 1, .dispatch "2" "react" 2, .dispatch "3" "docs" 3, .wait "1",
  .cancel "1" 4, .complete "1" ⟨true, {}⟩ 5, .wake 0, .dispatch "3" "docs" 6, .status "2"]

theorem singleFlight_of_crossedRequests :
    Reachable 0 (crossedRequests.foldl Watched.step ⟨{ retention := 0 }, []⟩)
      ∧ SingleFlight (crossedRequests.foldl Watched.step ⟨{ retention := 0 }, []⟩) := by
  have h : Reachable 0 (crossedRequests.foldl Watched.step ⟨{ retention := 0 }, []⟩) := by
    have hstart : Reachable 0 ⟨{ retention := 0 }, []⟩ := .start
    have hrefused := ((hstart.step (q := .dispatch "1" "docs" 1) rfl).step
      (q := .dispatch "2" "react" 2) rfl).step (q := .dispatch "3" "docs" 3) rfl
    have hended := ((((hrefused.step (q := .wait "1") trivial).step
      (q := .cancel "1" 4) trivial).step (q := .complete "1" ⟨true, {}⟩ 5) trivial).step
      (q := .wake 0) trivial)
    exact (hended.step (q := .dispatch "3" "docs" 6) rfl).step (q := .status "2") trivial
  exact ⟨h, singleFlight_of_reachable h⟩

/-- Without retention a run in progress is remembered all the same. -/
example : ((({ retention := 0 } : Registry).dispatch "1" "docs" 1).2.dispatch "2" "docs" 2).1
    = .error ⟨"docs", "1"⟩ := rfl

end ContentGraph
