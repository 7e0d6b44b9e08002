import ContentGraph.Proofs.Run.RegistryHistory
import Mathlib.Data.List.DropRight

/-!
# What a registry forgets

The chronicle of a history holds every run that ever started, in the order of the dispatches, and
forgets none. Seen through one platform, a registry of retention `n` remembers the last `n` past
runs of the chronicle and the one in progress, or the last `n + 1` past runs when there is none
(`Tracks`). Each step keeps this (`Follows.step`). Main statement: a registry retains exactly the
runs that were dispatched last, and only an accepted dispatch of their platform makes it forget
(`retains_after`).
-/

namespace ContentGraph

open Registry

/-! ## The chronicle -/

/-- What a request adds to the chronicle, or changes in it. -/
def note (runs : List RunRecord) : Request → List RunRecord
  | .dispatch id platform now =>
      if runs.any (isActive platform) then runs else runs ++ [{ id, platform, startedAt := now }]
  | .complete id outcome now => runs.map (endRecord id outcome now)
  | .cancel id now => runs.map (endRecord id .cancelled now)
  | .status _ => runs
  | .wait _ => runs
  | .wake _ => runs

/-- Every run that started in a history, in the order of the dispatches. -/
def chronicle (history : List Request) : List RunRecord := history.foldl note []

/-- What a registry comes to in a history. -/
def after (retention : Nat) (history : List Request) : Watched :=
  history.foldl Watched.step ⟨{ retention }, []⟩

theorem chronicle_concat (history : List Request) (q : Request) :
    chronicle (history ++ [q]) = note (chronicle history) q := List.foldl_concat ..

theorem after_concat (retention : Nat) (history : List Request) (q : Request) :
    after retention (history ++ [q]) = (after retention history).step q := List.foldl_concat ..

/-! ## One platform -/

/-- Holds for the runs of a platform. -/
def isOf (platform : String) (run : RunRecord) : Bool := run.platform = platform

/-- How the remembered runs of a platform follow its runs in the chronicle. -/
inductive Tracks (n : Nat) : List RunRecord → List RunRecord → Prop
  | idle {past : List RunRecord} (h : ∀ run ∈ past, run.isFinished = true) :
      Tracks n past (past.rtake (n + 1))
  | busy {past : List RunRecord} {run : RunRecord} (h : ∀ run ∈ past, run.isFinished = true)
      (hrun : run.isFinished = false) : Tracks n (past ++ [run]) (past.rtake n ++ [run])

variable {n : Nat} {all kept : List RunRecord} {platform : String}

theorem rtake_subset (n : Nat) (runs : List RunRecord) : runs.rtake n ⊆ runs :=
  List.drop_subset _ _

theorem map_endRecord_of_finished (id : String) (outcome : RunOutcome) (now : Millis)
    (h : ∀ run ∈ all, run.isFinished = true) : all.map (endRecord id outcome now) = all := by
  rw [List.map_congr_left fun run hrun => endRecord_of_finished id outcome now (h run hrun),
    List.map_id']

/-- The end of a run turns the run in progress into a past one, or changes nothing. -/
theorem Tracks.map_endRecord (h : Tracks n all kept) (id : String) (outcome : RunOutcome)
    (now : Millis) :
    Tracks n (all.map (endRecord id outcome now)) (kept.map (endRecord id outcome now)) := by
  cases h with
  | idle hpast =>
      rw [map_endRecord_of_finished id outcome now hpast, map_endRecord_of_finished id outcome now
        fun run hrun => hpast run (rtake_subset _ _ hrun)]
      exact .idle hpast
  | @busy past run hpast hrun =>
      simp only [List.map_append, List.map_cons, List.map_nil]
      rw [map_endRecord_of_finished id outcome now hpast, map_endRecord_of_finished id outcome now
        fun run hrun => hpast run (rtake_subset _ _ hrun)]
      obtain heq | ⟨-, -, heq⟩ := endRecord_cases id outcome now run
      · rw [heq]
        exact .busy hpast hrun
      · -- the run that ended is the latest of the past ones
        rw [heq, ← List.rtake_concat_succ]
        refine .idle (List.forall_mem_append.2 ⟨hpast, List.forall_mem_singleton.2 ?_⟩)
        exact isFinished_finish outcome now run

/-- The past runs of a platform are remembered from some place on. -/
theorem Tracks.past (h : Tracks n all kept) :
    kept.filter RunRecord.isFinished
      = (all.filter RunRecord.isFinished).rtake
        (if all.any (!·.isFinished) then n else n + 1) := by
  cases h with
  | idle hpast =>
      have hnone : all.any (!·.isFinished) = false := by simpa using hpast
      rw [hnone, List.filter_eq_self.2 hpast, List.filter_eq_self.2 fun run hrun =>
        hpast run (rtake_subset _ _ hrun)]
      simp
  | @busy past run hpast hrun =>
      have hsome : (past ++ [run]).any (!·.isFinished) = true := by simp [hrun]
      rw [hsome, List.filter_append, List.filter_append, List.filter_eq_self.2 hpast,
        List.filter_eq_self.2 fun run hrun => hpast run (rtake_subset _ _ hrun)]
      simp [hrun]

/-- A run of a platform is in progress in the chronicle just when one is remembered. -/
theorem Tracks.any_isFinished (h : Tracks n all kept) :
    kept.any (!·.isFinished) = all.any (!·.isFinished) := by
  cases h with
  | idle hpast =>
      have hall : all.any (!·.isFinished) = false := by simpa using hpast
      have hkept : (all.rtake (n + 1)).any (!·.isFinished) = false := by
        simpa using fun run hrun => hpast run (rtake_subset _ _ hrun)
      rw [hall, hkept]
  | busy hpast hrun => simp [hrun]

theorem rtake_drop_excess (n : Nat) (runs : List RunRecord) :
    (runs.rtake (n + 1)).drop ((runs.rtake (n + 1)).length - n) = runs.rtake n := by
  unfold List.rtake
  rw [List.drop_drop, List.length_drop]
  congr 1
  omega

/-! ## Forgetting -/

/-- Where all runs of a platform are over, the first are forgotten. -/
theorem filter_isOf_forget (excess : Nat) (runs : List RunRecord)
    (hidle : ∀ run ∈ runs, ¬isActive platform run = true) :
    (forget platform excess runs).filter (isOf platform)
      = (runs.filter (isOf platform)).drop excess := by
  fun_induction forget platform excess runs with
  | case1 runs => simp
  | case2 => simp
  | case3 excess run runs hpast ih =>
      have hof : isOf platform run = true := by
        unfold isPast at hpast
        exact (Bool.and_eq_true _ _ ▸ hpast).1
      rw [List.filter_cons_of_pos hof, List.drop_succ_cons]
      exact ih fun run hrun => hidle run (List.mem_cons_of_mem _ hrun)
  | case4 excess run runs hpast ih =>
      -- a run of the platform is past or in progress, so this one is of another
      have hof : ¬isOf platform run = true := by
        have hactive := hidle run List.mem_cons_self
        unfold isActive at hactive
        unfold isPast at hpast
        unfold isOf
        cases hfinished : run.isFinished <;> simp_all
      rw [List.filter_cons_of_neg hof, List.filter_cons_of_neg hof]
      exact ih fun run hrun => hidle run (List.mem_cons_of_mem _ hrun)

/-- Runs of other platforms are not forgotten. -/
theorem filter_isOf_forget_of_ne {other : String} (hne : other ≠ platform) (excess : Nat)
    (runs : List RunRecord) :
    (forget platform excess runs).filter (isOf other) = runs.filter (isOf other) := by
  fun_induction forget platform excess runs with
  | case1 runs => rfl
  | case2 => rfl
  | case3 excess run runs hpast ih =>
      have hof : ¬isOf other run = true := by
        unfold isPast at hpast
        unfold isOf
        rintro hother
        simp_all
      rw [ih, List.filter_cons_of_neg hof]
  | case4 excess run runs hpast ih => rw [List.filter_cons, List.filter_cons, ih]

/-! ## Steps -/

/-- How a registry follows the chronicle: what it remembers stands there, and of each platform it
remembers the latest. -/
structure Follows (n : Nat) (r : Registry) (all : List RunRecord) : Prop where
  retention : r.retention = n
  remembered : r.records.Sublist all
  tracks : ∀ platform, Tracks n (all.filter (isOf platform)) (r.records.filter (isOf platform))

theorem any_isActive (platform : String) (runs : List RunRecord) :
    runs.any (isActive platform) = (runs.filter (isOf platform)).any (!·.isFinished) := by
  rw [List.any_filter]
  rfl

theorem filter_isPast (platform : String) (runs : List RunRecord) :
    runs.filter (isPast platform) = (runs.filter (isOf platform)).filter RunRecord.isFinished := by
  rw [List.filter_filter]
  refine List.filter_congr fun run _ => ?_
  unfold isPast isOf
  rw [Bool.and_comm]

theorem isOf_endRecord (platform id : String) (outcome : RunOutcome) (now : Millis) :
    isOf platform ∘ endRecord id outcome now = isOf platform := by
  funext run
  show isOf platform (endRecord id outcome now run) = isOf platform run
  obtain heq | ⟨-, -, heq⟩ := endRecord_cases id outcome now run
  · rw [heq]
  · rw [heq]
    rfl

variable {r : Registry}

namespace Follows

theorem any_isActive_eq (h : Follows n r all) (platform : String) :
    r.records.any (isActive platform) = all.any (isActive platform) := by
  rw [any_isActive, any_isActive, (h.tracks platform).any_isFinished]

/-- The end of a run. -/
theorem finish (h : Follows n r all) (id : String) (outcome : RunOutcome) (now : Millis) :
    Follows n (r.finish id outcome now) (all.map (endRecord id outcome now)) := by
  refine ⟨h.retention, h.remembered.map _, fun platform => ?_⟩
  rw [finish_records, List.filter_map, List.filter_map, isOf_endRecord]
  exact (h.tracks platform).map_endRecord id outcome now

end Follows

theorem not_isActive (h : ¬r.records.any (isActive platform) = true) :
    ∀ run ∈ r.records, ¬isActive platform run = true :=
  fun run hrun hactive => h (List.any_eq_true.2 ⟨run, hrun, hactive⟩)

theorem dispatch_of_busy (id : String) (now : Millis)
    (h : r.records.any (isActive platform) = true) :
    (r.dispatch id platform now).2 = r ∧ (r.dispatch id platform now).1 ≠ .ok () := by
  obtain ⟨run, -, -, hrefused⟩ | ⟨hidle, -⟩ := dispatch_cases id platform now r
  · rw [hrefused]
    exact ⟨rfl, fun haccepted => nomatch haccepted⟩
  · obtain ⟨run, hrun, hactive⟩ := List.any_eq_true.1 h
    exact absurd hactive (hidle run hrun)

theorem dispatch_of_idle (id : String) (now : Millis)
    (h : ¬r.records.any (isActive platform) = true) :
    r.dispatch id platform now
      = (.ok (), { r with records := (r.evict platform).records
          ++ [{ id, platform, startedAt := now }] }) := by
  have hnone : r.active? platform = none := List.find?_eq_none.2 (not_isActive h)
  unfold dispatch
  rw [hnone]
  rfl

/-- A run starts where none is in progress: what is beyond the retention is forgotten first. -/
theorem Tracks.start (h : Tracks n all kept) (hidle : ¬kept.any (!·.isFinished) = true)
    {run : RunRecord} (hrun : run.isFinished = false) :
    Tracks n (all ++ [run]) (kept.drop (kept.length - n) ++ [run]) := by
  cases h with
  | idle hpast =>
      rw [rtake_drop_excess]
      exact .busy hpast hrun
  | busy _ hbusy => simp [hbusy] at hidle

theorem countP_isPast (h : ¬r.records.any (isActive platform) = true) :
    r.records.countP (isPast platform) = (r.records.filter (isOf platform)).length := by
  rw [any_isActive, List.any_eq_true] at h
  rw [List.countP_eq_length_filter, filter_isPast, List.filter_eq_self.2 fun run hrun => ?_]
  by_contra hunfinished
  exact h ⟨run, hrun, by simpa using hunfinished⟩

theorem filter_isOf_new (id platform other : String) (now : Millis) :
    [({ id, platform, startedAt := now } : RunRecord)].filter (isOf other)
      = if platform = other then [{ id, platform, startedAt := now }] else [] := by
  simp [List.filter_cons, isOf]

namespace Follows

/-- A dispatch. -/
theorem dispatch (h : Follows n r all) (id platform : String) (now : Millis) :
    Follows n (r.dispatch id platform now).2 (note all (.dispatch id platform now)) := by
  have hsame := h.any_isActive_eq platform
  simp only [note]
  by_cases hbusy : r.records.any (isActive platform) = true
  · rw [if_pos (hsame ▸ hbusy), (dispatch_of_busy id now hbusy).1]
    exact h
  · rw [if_neg (hsame ▸ hbusy), dispatch_of_idle id now hbusy]
    have hnone := not_isActive hbusy
    refine ⟨h.retention, ((forget_sublist _ _ _).trans h.remembered).append_right _, ?_⟩
    intro other
    show Tracks n ((all ++ [_]).filter _) ((forget _ _ _ ++ [_]).filter _)
    rw [List.filter_append, List.filter_append, filter_isOf_new]
    by_cases hplatform : platform = other
    · subst hplatform
      rw [if_pos rfl, filter_isOf_forget _ _ hnone, countP_isPast hbusy, h.retention]
      rw [any_isActive] at hbusy
      exact (h.tracks platform).start hbusy rfl
    · rw [if_neg hplatform, filter_isOf_forget_of_ne (Ne.symm hplatform), List.append_nil,
        List.append_nil]
      exact h.tracks other

/-- **Step.** Whatever happens to a registry, it goes on to follow the chronicle. -/
theorem step {w : Watched} (h : Follows n w.registry all) (q : Request) :
    Follows n (w.step q).registry (note all q) := by
  cases q with
  | dispatch id platform now => exact h.dispatch id platform now
  | complete id outcome now => exact h.finish id outcome now
  | cancel id now => exact h.finish id .cancelled now
  | status id => exact h
  | wait id => exact h
  | wake place => exact h

end Follows

/-- **Run.** A registry follows its chronicle at all times. -/
theorem follows_after (retention : Nat) (history : List Request) :
    Follows retention (after retention history).registry (chronicle history) := by
  induction history using List.reverseRecOn with
  | nil =>
      refine ⟨rfl, List.Sublist.refl _, fun platform => ?_⟩
      have hempty : Tracks retention [] (List.rtake [] (retention + 1)) :=
        .idle (List.forall_mem_nil _)
      rwa [List.rtake_nil] at hempty
  | append_singleton history q ih =>
      rw [after_concat, chronicle_concat]
      exact ih.step q

/-! ## Retention -/

/-- Holds for an accepted dispatch of a platform. -/
def Request.Starts (r : Registry) (platform : String) : Request → Prop
  | .dispatch id asked now => asked = platform ∧ (r.dispatch id asked now).1 = .ok ()
  | _ => False

/-- What a registry retains of a platform of whose runs the chronicle tells. -/
structure Retains (retention : Nat) (w : Watched) (all : List RunRecord) (platform : String) :
    Prop where
  /-- A run of the platform is in progress in the registry just when one is. -/
  busy : (w.registry.active? platform).isSome = all.any (isActive platform)
  /-- The past runs that are remembered are the ones that were dispatched last. -/
  latest : w.registry.records.filter (isPast platform) <:+ all.filter (isPast platform)
  count : (w.registry.records.filter (isPast platform)).length
    = min (all.filter (isPast platform)).length
      (if all.any (isActive platform) then retention else retention + 1)
  /-- Only an accepted dispatch of the platform changes which of its runs are remembered. -/
  settled : ∀ q : Request, ¬q.Starts w.registry platform →
    ((w.step q).registry.records.filter (isOf platform)).map (·.id)
      = (w.registry.records.filter (isOf platform)).map (·.id)

theorem map_id_endRecord (id : String) (outcome : RunOutcome) (now : Millis)
    (runs : List RunRecord) : (runs.map (endRecord id outcome now)).map (·.id) = runs.map (·.id) := by
  rw [List.map_map]
  exact List.map_congr_left fun run _ => endRecord_id id outcome now run

theorem map_id_step (w : Watched) (q : Request) (h : ¬q.Starts w.registry platform) :
    ((w.step q).registry.records.filter (isOf platform)).map (·.id)
      = (w.registry.records.filter (isOf platform)).map (·.id) := by
  have hfinish (id : String) (outcome : RunOutcome) (now : Millis) :
      ((w.registry.finish id outcome now).records.filter (isOf platform)).map (·.id)
        = (w.registry.records.filter (isOf platform)).map (·.id) := by
    rw [finish_records, List.filter_map, isOf_endRecord, map_id_endRecord]
  cases q with
  | dispatch id asked now =>
      show ((w.registry.dispatch id asked now).2.records.filter _).map _ = _
      by_cases hbusy : w.registry.records.any (isActive asked) = true
      · rw [(dispatch_of_busy id now hbusy).1]
      · -- the dispatch is accepted, so it is of another platform
        have hne : asked ≠ platform := fun heq => h ⟨heq, by rw [dispatch_of_idle id now hbusy]⟩
        rw [dispatch_of_idle id now hbusy, List.filter_append, filter_isOf_new, if_neg hne,
          List.append_nil]
        exact congrArg _ (filter_isOf_forget_of_ne hne.symm _ _)
  | complete id outcome now => exact hfinish id outcome now
  | cancel id now => exact hfinish id .cancelled now
  | status id => rfl
  | wait id => rfl
  | wake place => rfl

/-- **Retention.** Whatever happened to a registry, it remembers of each platform exactly the past
runs that were dispatched last, one more than the retention when none is in progress, and only an
accepted dispatch of the platform makes it forget any. -/
theorem retains_after (retention : Nat) (history : List Request) (platform : String) :
    Retains retention (after retention history) (chronicle history) platform := by
  have h := follows_after retention history
  have hpast : (after retention history).registry.records.filter (isPast platform)
      = ((chronicle history).filter (isPast platform)).rtake
        (if (chronicle history).any (isActive platform) then retention else retention + 1) := by
    rw [filter_isPast, filter_isPast, any_isActive]
    exact (h.tracks platform).past
  refine ⟨?_, ?_, ?_, fun q hq => map_id_step _ q hq⟩
  · rw [← h.any_isActive_eq, Registry.active?, List.isSome_find?]
  · rw [hpast]
    exact List.drop_suffix _ _
  · rw [hpast, List.rtake, List.length_drop]
    omega

/-- Without retention the last run that is over is remembered until the next one starts. -/
example : (after 0 [.dispatch "1" "docs" 1, .cancel "1" 2, .dispatch "2" "docs" 3,
    .cancel "2" 4]).registry.records.map (·.id) = ["2"] := by decide

end ContentGraph
