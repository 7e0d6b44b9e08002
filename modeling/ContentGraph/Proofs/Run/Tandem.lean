import ContentGraph.Proofs.Run.Steady
import ContentGraph.Proofs.Store.Sight
import Mathlib.Logic.Function.Basic

/-!
# Two runs over one store

Two runs share a store and take their steps in any order; a schedule tells whose turn it is, and
when (`Tandem.play`). Each run gets its result from its own part of what happened
(`Tandem.yields_own`), and what the other leaves alone is as if only this part had happened
(`Score.seen_own`). To let one run come to its end and then the other is one schedule of many
(`Tandem.exists_schedule`).
-/

namespace ContentGraph

open Routine (Yields Asks Answered)
open Store (Backend Change)

/-- One of two runs. -/
inductive Side
  | left
  | right
deriving DecidableEq, Repr

namespace Side

def other : Side → Side
  | .left => .right
  | .right => .left

theorem other_ne (side : Side) : side.other ≠ side := by
  cases side <;> decide

theorem eq_other_of_ne {side side' : Side} (h : side' ≠ side) : side' = side.other := by
  cases side <;> cases side' <;> first | rfl | exact absurd rfl h

/-- What does not hold on both sides fails on the other side of one of them. -/
theorem exists_not_other {p : Side → Prop} (h : ¬(p .left ∧ p .right)) : ∃ side, ¬p (other side) := by
  by_cases hleft : p .left
  · exact ⟨.left, fun hright => h ⟨hleft, hright⟩⟩
  · exact ⟨.right, hleft⟩

end Side

/-- What two runs have asked for and been answered, in the order in which it happened. -/
abbrev Score := List (Side × Exchange)

namespace Score

variable {side side' : Side} {x : Exchange} {W : Score}

/-- What happened, whoever asked for it. -/
def whole (W : Score) : Transcript := W.map (·.2)

/-- What one side asked for. -/
def own (side : Side) (W : Score) : Transcript := (W.filter (·.1 = side)).map (·.2)

theorem made_whole_cons (side : Side) (x : Exchange) (W : Score) :
    (whole ((side, x) :: W)).made = Transcript.made [x] ++ (whole W).made :=
  Transcript.made_append [x] (whole W)

theorem own_cons_self (side : Side) (x : Exchange) (W : Score) :
    own side ((side, x) :: W) = x :: own side W := by
  simp [own]

theorem own_cons_of_ne (h : side' ≠ side) (x : Exchange) (W : Score) :
    own side ((side', x) :: W) = own side W := by
  simp [own, h]

theorem mem_own : x ∈ own side W ↔ (side, x) ∈ W := by
  simp [own]

theorem noFault_own (h : (whole W).NoFault) (side : Side) : (own side W).NoFault := by
  intro now c e hmem
  exact h now c e (List.mem_map.2 ⟨_, mem_own.1 hmem, rfl⟩)

/-- **Sides.** What the other side leaves alone is seen as if only the own side had made its
changes, if what is seen after a change depends on what was seen before. -/
theorem seen_own {κ ω : Type} {effect : Millis → Change → κ → κ} (seen : κ → ω)
    (hcongr : ∀ now c k k', seen k = seen k' → seen (effect now c k) = seen (effect now c k'))
    (hother : ∀ now c o, .changed now c o ∈ own side.other W → ∀ k, seen (effect now c k) = seen k)
    (k : κ) : seen (replay effect (whole W).made k) = seen (replay effect (own side W).made k) := by
  have hreplay : ∀ (L : List (Millis × Change)) (k k' : κ), seen k = seen k' →
      seen (replay effect L k) = seen (replay effect L k') := by
    intro L
    induction L with
    | nil => exact fun _ _ h => h
    | cons p L ih => exact fun k k' h => ih _ _ (hcongr _ _ _ _ h)
  simp only [mem_own] at hother
  induction W generalizing k with
  | nil => rfl
  | cons q W ih =>
      obtain ⟨side', x⟩ := q
      rw [made_whole_cons, replay_append,
        ih _ fun now c o hmem => hother now c o (List.mem_cons_of_mem _ hmem)]
      by_cases hside : side' = side
      · subst hside
        have hown : Transcript.made (x :: own side' W) = Transcript.made [x] ++ (own side' W).made :=
          Transcript.made_append [x] _
        rw [own_cons_self, hown, replay_append]
      · -- a step of the other side
        rw [own_cons_of_ne hside]
        obtain rfl := Side.eq_other_of_ne hside
        refine hreplay _ _ _ ?_
        match x with
        | .changed now c (.ok ()) => exact hother now c _ List.mem_cons_self k
        | .changed _ _ (.error _) => rfl
        | .read _ => rfl
        | .listed _ => rfl
        | .extracted _ _ => rfl

end Score

/-- Two runs on their way, and the store that they share. -/
structure Tandem (σ : Type) where
  runs : Side → Routine RunOutcome
  store : σ

namespace Tandem

variable {σ : Type}

/-- Two passes that start. -/
def start (sources : Side → Extractor) (s : σ) : Tandem σ :=
  ⟨fun side => Pass.routine (sources side).platform, s⟩

/-- Two runs that are over. -/
def ended (outcomes : Side → RunOutcome) (s : σ) : Tandem σ := ⟨fun side => .done (outcomes side), s⟩

variable [Backend σ] (sources : Side → Extractor) (tree : FileTree)

/-- One of the runs takes its next step. -/
def step (side : Side) (now : Millis) (w : Tandem σ) : Tandem σ :=
  let next := (w.runs side).step (sources side) tree now w.store
  ⟨Function.update w.runs side next.1, next.2⟩

/-- What happens when the runs take their steps in the order of a schedule, and what it comes to. A
run that is over takes no step. -/
def play : List (Side × Millis) → Tandem σ → Score × Tandem σ
  | [], w => ([], w)
  | (side, now) :: schedule, w =>
    match (w.runs side).exchange? (sources side) tree now w.store with
    | none => play schedule w
    | some x =>
      let rest := play schedule (w.step sources tree side now)
      ((side, x) :: rest.1, rest.2)

variable {sources tree}

section Play

variable {side : Side} {now : Millis} {x : Exchange}
  {schedule schedule' : List (Side × Millis)} {w : Tandem σ}

theorem runs_step_self (side : Side) (now : Millis) (w : Tandem σ) :
    (w.step sources tree side now).runs side
      = ((w.runs side).step (sources side) tree now w.store).1 := Function.update_self ..

theorem runs_step_of_ne {side' : Side} (h : side' ≠ side) (now : Millis) (w : Tandem σ) :
    (w.step sources tree side now).runs side' = w.runs side' := Function.update_of_ne h ..

theorem play_cons (hx : (w.runs side).exchange? (sources side) tree now w.store = some x) :
    play sources tree ((side, now) :: schedule) w
      = ((side, x) :: (play sources tree schedule (w.step sources tree side now)).1,
        (play sources tree schedule (w.step sources tree side now)).2) := by
  rw [play, hx]

theorem play_cons_of_over (hx : (w.runs side).exchange? (sources side) tree now w.store = none) :
    play sources tree ((side, now) :: schedule) w = play sources tree schedule w := by
  rw [play, hx]

theorem play_append (schedule schedule' : List (Side × Millis)) (w : Tandem σ) :
    play sources tree (schedule ++ schedule') w
      = ((play sources tree schedule w).1
          ++ (play sources tree schedule' (play sources tree schedule w).2).1,
        (play sources tree schedule' (play sources tree schedule w).2).2) := by
  induction schedule generalizing w with
  | nil => rfl
  | cons turn schedule ih =>
      obtain ⟨side, now⟩ := turn
      rw [List.cons_append]
      cases hx : (w.runs side).exchange? (sources side) tree now w.store with
      | none => rw [play_cons_of_over hx, play_cons_of_over hx, ih]
      | some x =>
          rw [play_cons hx, play_cons hx, ih]
          rfl

/-- What holds at the end of a schedule, and before a step if it holds after it, holds of all that
happens. -/
theorem play_induction {P : Tandem σ → Score → Prop} (hend : P (play sources tree schedule w).2 [])
    (hstep : ∀ w side now x W,
      (w.runs side).exchange? (sources side) tree now w.store = some x →
      P (w.step sources tree side now) W → P w ((side, x) :: W)) :
    P w (play sources tree schedule w).1 := by
  induction schedule generalizing w with
  | nil => exact hend
  | cons turn schedule ih =>
      obtain ⟨side, now⟩ := turn
      cases hx : (w.runs side).exchange? (sources side) tree now w.store with
      | none =>
          rw [play_cons_of_over hx] at hend ⊢
          exact ih hend
      | some x =>
          rw [play_cons hx] at hend ⊢
          exact hstep w side now x _ hx (ih hend)

/-- **Results.** A run that is over has its result from what it asked for itself. -/
theorem yields_own {outcomes : Side → RunOutcome} {s' : σ}
    (h : (play sources tree schedule w).2 = ended outcomes s') (side : Side) :
    Yields (w.runs side) (Score.own side (play sources tree schedule w).1) (outcomes side) := by
  refine play_induction (P := fun w W => Yields (w.runs side) (Score.own side W) (outcomes side)) ?_ ?_
  · rw [h]
    exact .done _
  · intro w side' now x W hx hW
    obtain ⟨hasks, -⟩ := Routine.asks_of_exchange? hx
    by_cases hside : side' = side
    · subst hside
      rw [runs_step_self] at hW
      rw [Score.own_cons_self]
      exact hasks.yields hW
    · rw [runs_step_of_ne (Ne.symm hside)] at hW
      rwa [Score.own_cons_of_ne hside]

end Play

variable (sources tree)

/-- Each side is answered by its own extractor. -/
theorem answeredBy_own (schedule : List (Side × Millis)) (w : Tandem σ) (side : Side) :
    (Score.own side (play sources tree schedule w).1).AnsweredBy (sources side) tree := by
  have hanswered : ∀ side x, (side, x) ∈ (play sources tree schedule w).1 →
      ∃ s s' : σ, Answered (sources side) tree x s s' := by
    refine play_induction (P := fun _ W => ∀ side x, (side, x) ∈ W →
      ∃ s s' : σ, Answered (sources side) tree x s s') (fun _ _ h => absurd h List.not_mem_nil) ?_
    intro w side now x W hx hW side' x' hmem
    rcases List.mem_cons.1 hmem with heq | hmem
    · obtain ⟨rfl, rfl⟩ := Prod.mk.inj heq
      exact ⟨_, _, (Routine.asks_of_exchange? hx).2⟩
    · exact hW side' x' hmem
  constructor
  · intro files hmem
    obtain ⟨s, s', h⟩ := hanswered _ _ (Score.mem_own.1 hmem)
    cases h with
    | listed => rfl
  · intro file outcome hmem
    obtain ⟨s, s', h⟩ := hanswered _ _ (Score.mem_own.1 hmem)
    cases h with
    | extracted => exact ⟨_, rfl⟩

/-- In every view the changes of both sides show, in the order in which they were made. -/
theorem seen_eq {κ : Type} {effect : Millis → Change → κ → κ} (v : View σ κ effect)
    (schedule : List (Side × Millis)) (w : Tandem σ) :
    v.seen (play sources tree schedule w).2.store
      = replay effect (Score.whole (play sources tree schedule w).1).made (v.seen w.store) := by
  refine play_induction (P := fun w' W => v.seen (play sources tree schedule w).2.store
    = replay effect (Score.whole W).made (v.seen w'.store)) rfl ?_
  intro w side now x W hx hW
  obtain ⟨-, hanswered⟩ := Routine.asks_of_exchange? hx
  rw [Score.made_whole_cons, replay_append, ← v.seen_of_answered hanswered]
  exact hW

/-- A store in memory fails no change. -/
theorem noFault_play (schedule : List (Side × Millis)) (w : Tandem MemoryStore) :
    (Score.whole (play sources tree schedule w).1).NoFault := by
  refine play_induction (P := fun _ W => (Score.whole W).NoFault)
    (fun _ _ _ h => absurd h List.not_mem_nil) ?_
  intro w side now x W hx hW
  refine Transcript.NoFault.cons hW ?_
  intro now c e heq
  subst heq
  obtain ⟨-, hanswered⟩ := Routine.asks_of_exchange? hx
  cases hanswered with
  | changed h =>
      obtain ⟨heq, -⟩ := Prod.mk.inj h
      cases heq

/-! ## One run after the other -/

/-- A first step, and then what a schedule makes of the rest. -/
theorem exists_schedule_cons {side : Side} {x : Exchange} {w : Tandem σ} {r r' : Routine RunOutcome}
    {s s' : σ} {T : Transcript} (now : Millis)
    (hx : (w.runs side).exchange? (sources side) tree now w.store = some x)
    (hstep : (w.runs side).step (sources side) tree now w.store = (r, s))
    (hrest : ∃ schedule, play sources tree schedule ⟨Function.update w.runs side r, s⟩
      = (T.map (side, ·), ⟨Function.update (Function.update w.runs side r) side r', s'⟩)) :
    ∃ schedule, play sources tree schedule w
      = ((x :: T).map (side, ·), ⟨Function.update w.runs side r', s'⟩) := by
  obtain ⟨schedule, hschedule⟩ := hrest
  refine ⟨(side, now) :: schedule, ?_⟩
  rw [play_cons hx]
  unfold step
  rw [hstep, hschedule, Function.update_idem]
  rfl

/-- A run that is left to itself. -/
theorem exists_schedule_run (side : Side) (r : Routine RunOutcome) (time : Nat → Millis)
    (w : Tandem σ) (hr : w.runs side = r) :
    ∃ schedule, play sources tree schedule w
      = ((r.transcript (sources side) tree time w.store).map (side, ·),
        ⟨Function.update w.runs side (.done (r.run (sources side) tree time w.store).1),
          (r.run (sources side) tree time w.store).2⟩) := by
  induction r generalizing time w with
  | done x =>
      refine ⟨[], ?_⟩
      show ([], w) = ([], Tandem.mk (Function.update w.runs side (.done x)) w.store)
      rw [← hr, Function.update_eq_self]
  | clock next ih =>
      exact exists_schedule_cons sources tree (time 0) (by rw [hr]; rfl) (by rw [hr]; rfl)
        (ih _ _ ⟨_, w.store⟩ (Function.update_self ..))
  | discover next ih =>
      exact exists_schedule_cons sources tree (time 0) (by rw [hr]; rfl) (by rw [hr]; rfl)
        (ih _ _ ⟨_, w.store⟩ (Function.update_self ..))
  | extract file next ih =>
      exact exists_schedule_cons sources tree (time 0) (by rw [hr]; rfl) (by rw [hr]; rfl)
        (ih _ _ ⟨_, w.store⟩ (Function.update_self ..))
  | change c next ih =>
      exact exists_schedule_cons sources tree (time 0) (by rw [hr]; rfl) (by rw [hr]; rfl)
        (ih _ _ ⟨_, (Backend.change (time 0) c w.store).2⟩ (Function.update_self ..))

end Tandem

/-- Two passes that start over a store. -/
structure Duet (σ : Type) where
  sources : Side → Extractor
  tree : FileTree
  store : σ

namespace Duet

variable {σ : Type} [Backend σ]

/-- What happens when the passes take their steps in the order of a schedule, and what it comes to. -/
def play (x : Duet σ) (schedule : List (Side × Millis)) : Score × Tandem σ :=
  Tandem.play x.sources x.tree schedule (.start x.sources x.store)

/-- The pass of one side. -/
def pass (x : Duet σ) (side : Side) : Routine RunOutcome := Pass.routine (x.sources side).platform

variable (x : Duet σ) (first : Side) (time : Side → Nat → Millis)

/-- The outcome of the first pass, and what it leaves, when the other waits for its end. -/
def former : RunOutcome × σ :=
  (x.pass first).run (x.sources first) x.tree (time first) x.store

/-- The outcome of the second pass, and what both leave. -/
def latter : RunOutcome × σ :=
  (x.pass first.other).run (x.sources first.other) x.tree (time first.other) (x.former first time).2

/-- What both ask for, one after the other. -/
def scoreInTurn : Score :=
  ((x.pass first).transcript (x.sources first) x.tree (time first) x.store).map (first, ·)
    ++ ((x.pass first.other).transcript (x.sources first.other) x.tree (time first.other)
      (x.former first time).2).map (first.other, ·)

def outcomesInTurn (side : Side) : RunOutcome :=
  if side = first then (x.former first time).1 else (x.latter first time).1

/-- **In turn.** One pass after the other is one of the schedules. -/
theorem exists_schedule : ∃ schedule, x.play schedule
    = (x.scoreInTurn first time, .ended (x.outcomesInTurn first time) (x.latter first time).2) := by
  let between : Tandem σ :=
    ⟨Function.update x.pass first (.done (x.former first time).1), (x.former first time).2⟩
  obtain ⟨schedule, hformer⟩ : ∃ schedule, x.play schedule = (_, between) :=
    Tandem.exists_schedule_run x.sources x.tree first (x.pass first) (time first) _ rfl
  obtain ⟨schedule', hlatter⟩ := Tandem.exists_schedule_run x.sources x.tree first.other
    (x.pass first.other) (time first.other) between (Function.update_of_ne first.other_ne ..)
  have hover : Function.update between.runs first.other (.done (x.latter first time).1)
      = fun side => .done (x.outcomesInTurn first time side) := by
    funext side
    by_cases hside : side = first
    · subst hside
      rw [Function.update_of_ne side.other_ne.symm, outcomesInTurn, if_pos rfl]
      exact Function.update_self ..
    · obtain rfl := Side.eq_other_of_ne hside
      rw [Function.update_self, outcomesInTurn, if_neg hside]
  refine ⟨schedule ++ schedule', ?_⟩
  unfold play at hformer ⊢
  rw [Tandem.play_append, hformer, hlatter]
  unfold Tandem.ended
  rw [← hover]
  rfl

end Duet

end ContentGraph
