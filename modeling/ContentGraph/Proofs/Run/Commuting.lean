import ContentGraph.Proofs.Run.Ledgers
import ContentGraph.Proofs.Run.Ownership
import ContentGraph.Proofs.Run.Tandem

/-!
# Passes of different platforms commute

Two passes share a store and take their steps in any order. When their platforms differ and no asset
belongs to both, each change of the one leaves what belongs to the other as it is, also where a link
names an asset of the other. Main statement: where no change fails, both report and leave the same
as when one waits for the end of the other, but for times, and for how the errors of the one stand
between those of the other (`Duet.alike_of_ends`).
-/

namespace ContentGraph

open Discovery (Candidate)
open Store (Backend Change Fault)

/-! ## What is seen after a change depends on what was seen before -/

section Congruence

variable {now : Millis} {c : Change}

theorem assetEffect_congr {id : String} {k k' : AssetsSeen} (h : k id = k' id) :
    assetEffect now c k id = assetEffect now c k' id := by
  cases c with
  | ingest a =>
      show (if id = a.id then _ else k id) = if id = a.id then _ else k' id
      rw [h]
  | remove removed =>
      show (if id = removed then _ else k id) = if id = removed then _ else k' id
      rw [h]
  | _ => exact h

theorem edgeEffect_congr {e : Edge} {k k' : List Edge} (h : e ∈ k ↔ e ∈ k') :
    e ∈ edgeEffect now c k ↔ e ∈ edgeEffect now c k' := by
  cases c with
  | remove id => simp [edgeEffect, h]
  | clear origin kind => simp [edgeEffect, h]
  | relate e' => rw [mem_relate, mem_relate, h]
  | _ => exact h

theorem ledgerReadEffect_congr {reread : Json → Option Json} {platform : String}
    {k k' : LedgerRead} (h : k platform = k' platform) :
    ledgerReadEffect reread now c k platform = ledgerReadEffect reread now c k' platform := by
  cases c with
  | record recorded fields =>
      by_cases hp : platform = recorded
      · subst hp
        rw [ledgerReadEffect_record, ledgerReadEffect_record, h]
      · show (if platform = recorded then _ else k platform) = if platform = recorded then _ else _
        rw [if_neg hp, if_neg hp, h]
  | _ => exact h

theorem errorEffect_congr {platform : String} {k k' : List LoggedError}
    (h : messagesOf platform k = messagesOf platform k') :
    messagesOf platform (errorEffect now c k) = messagesOf platform (errorEffect now c k') := by
  cases c with
  | logError logged message =>
      show messagesOf platform (k ++ [_]) = messagesOf platform (k' ++ [_])
      rw [messagesOf_append, messagesOf_append, h]
  | _ => exact h

end Congruence

/-- What a pass logs are its errors, and they are logged for its platform. -/
theorem Pass.Faultless.messagesOf {listing : Except Discovery.Fault (List Candidate)}
    {platform : String} {T : Transcript} {o : RunOutcome} (h : Faultless platform listing T o)
    (other : String) :
    messagesOf other T.logged
      = if other = platform ∧ o.isCompleted = true then o.report.errors else [] := by
  unfold ContentGraph.messagesOf
  by_cases hp : other = platform
  · subst hp
    rw [List.filter_eq_self.2 fun e he => decide_eq_true (h.logged e he), h.messages]
    simp
  · have hnone : T.logged.filter (·.platform = other) = [] := by
      refine List.filter_eq_nil_iff.2 fun e he heq => hp ?_
      rw [← h.logged e he, of_decide_eq_true heq]
    rw [hnone, if_neg fun h => hp h.1]
    rfl

/-! ## Two passes that stay apart -/

namespace Duet

variable {σ : Type} [Backend σ]

/-- Holds when the platforms differ, no asset belongs to both, and what is extracted does not depend
on the time. -/
structure Apart (x : Duet σ) : Prop where
  platforms : (x.sources .left).platform ≠ (x.sources .right).platform
  ids : ∀ id, (x.sources .left).Makes x.tree id → ¬(x.sources .right).Makes x.tree id
  steady : ∀ side, (x.sources side).Steady x.tree

/-- Holds when the passes have come to an end after a schedule, and no change has failed. -/
structure Ends (x : Duet σ) (schedule : List (Side × Millis)) (outcomes : Side → RunOutcome)
    (s : σ) : Prop where
  ended : (x.play schedule).2 = .ended outcomes s
  noFault : (Score.whole (x.play schedule).1).NoFault
  /-- The times that the passes take are numbers that a ledger can tell. -/
  durations : ∀ side, (outcomes side).report.duration < Word.count 64

/-- Two pairs of outcomes and what they leave, compared but for times, and for how errors of
different platforms stand between each other. -/
structure Alike (sight : Sight σ) (outcomes outcomes' : Side → RunOutcome) (s s' : σ) : Prop where
  outcomes : ∀ side, (outcomes side).untimed = (outcomes' side).untimed
  assets : ∀ id, ((sight.contents.seen s).assets id).map (Option.map Asset.undated)
    = ((sight.contents.seen s').assets id).map (Option.map Asset.undated)
  edges : ∀ e, e ∈ (sight.contents.seen s).edges ↔ e ∈ (sight.contents.seen s').edges
  ledgers : ∀ platform, LedgerAlike (sight.ledger.seen s platform) (sight.ledger.seen s' platform)
  messages : ∀ platform, messagesOf platform (sight.contents.seen s).errors
    = messagesOf platform (sight.contents.seen s').errors

variable {x : Duet σ} {schedule schedule' : List (Side × Millis)} {outcomes outcomes' : Side → RunOutcome}
  {s s' : σ}

/-- What one side has asked for. -/
def own (x : Duet σ) (schedule : List (Side × Millis)) (side : Side) : Transcript :=
  Score.own side (x.play schedule).1

omit [Backend σ] in
theorem Apart.exists_platform (h : x.Apart) (platform : String) :
    ∃ side : Side, (x.sources side.other).platform ≠ platform :=
  Side.exists_not_other (p := fun side => (x.sources side).platform = platform)
    fun ⟨hleft, hright⟩ => h.platforms (hleft.trans hright.symm)

omit [Backend σ] in
theorem Apart.exists_maker (h : x.Apart) (id : String) :
    ∃ side : Side, ¬(x.sources side.other).Makes x.tree id :=
  Side.exists_not_other (p := fun side => (x.sources side).Makes x.tree id)
    fun ⟨hleft, hright⟩ => h.ids id hleft hright

theorem answeredBy_own (x : Duet σ) (schedule : List (Side × Millis)) (side : Side) :
    (x.own schedule side).AnsweredBy (x.sources side) x.tree :=
  Tandem.answeredBy_own x.sources x.tree schedule _ side

namespace Ends

theorem course (h : x.Ends schedule outcomes s) (side : Side) :
    Pass.PassCourse (x.sources side).platform (x.own schedule side) (outcomes side) :=
  Pass.yields_routine (Tandem.yields_own h.ended side)

theorem faultless (h : x.Ends schedule outcomes s) (hapart : x.Apart) (side : Side) :
    ∃ listing, Pass.Faultless (x.sources side).platform listing (x.own schedule side) (outcomes side)
      ∧ (x.own schedule side).answers = (x.sources side).steadyAnswers x.tree := by
  obtain ⟨listing, hfaultless⟩ := (h.course side).faultless (Score.noFault_own h.noFault side)
  exact ⟨listing, hfaultless, (hfaultless.answers_eq (hapart.steady side) (x.answeredBy_own schedule side)).2⟩

/-- **Sides.** What the changes of the other side leave alone is seen as if only the own side had
made its changes. -/
theorem seen_own (h : x.Ends schedule outcomes s) {κ ω : Type} {effect : Millis → Change → κ → κ}
    (v : View σ κ effect) (seen : κ → ω) (side : Side)
    (hcongr : ∀ now c k k', seen k = seen k' → seen (effect now c k) = seen (effect now c k'))
    (hother : ∀ now c, (x.sources side.other).Owns x.tree c → ∀ k, seen (effect now c k) = seen k) :
    seen (v.seen s) = seen (replay effect (x.own schedule side).made (v.seen x.store)) := by
  have hseen : v.seen s = replay effect (Score.whole (x.play schedule).1).made (v.seen x.store) := by
    have hplay := Tandem.seen_eq x.sources x.tree v schedule (.start x.sources x.store)
    change v.seen (x.play schedule).2.store = _ at hplay
    rwa [h.ended] at hplay
  rw [hseen]
  refine Score.seen_own seen hcongr (fun now c o hmem => hother now c ?_) _
  exact (h.course side.other).owns (x.answeredBy_own schedule side.other) hmem

/-- The passes of one side get the same answers in both orders. -/
theorem faultless_pair (hapart : x.Apart) (h : x.Ends schedule outcomes s)
    (h' : x.Ends schedule' outcomes' s') (side : Side) :
    ∃ listing listing',
      Pass.Faultless (x.sources side).platform listing (x.own schedule side) (outcomes side)
        ∧ Pass.Faultless (x.sources side).platform listing' (x.own schedule' side) (outcomes' side)
        ∧ (x.own schedule side).answers = (x.own schedule' side).answers := by
  obtain ⟨listing, hfaultless, hanswers⟩ := h.faultless hapart side
  obtain ⟨listing', hfaultless', hanswers'⟩ := h'.faultless hapart side
  exact ⟨listing, listing', hfaultless, hfaultless', hanswers.trans hanswers'.symm⟩

section Alike

variable (hapart : x.Apart) (h : x.Ends schedule outcomes s) (h' : x.Ends schedule' outcomes' s')

include hapart h h'

theorem outcomes_alike (side : Side) : (outcomes side).untimed = (outcomes' side).untimed := by
  obtain ⟨_, _, hfaultless, hfaultless', hsame⟩ := faultless_pair hapart h h' side
  exact hfaultless.untimed_eq hfaultless' hsame

theorem assets_alike (v : View σ AssetsSeen assetEffect) (id : String) :
    (v.seen s id).map (Option.map Asset.undated) = (v.seen s' id).map (Option.map Asset.undated) := by
  obtain ⟨side, hside⟩ := hapart.exists_maker id
  obtain ⟨_, _, hfaultless, hfaultless', hsame⟩ := faultless_pair hapart h h' side
  have hown {schedule outcomes s} (h : x.Ends schedule outcomes s) :
      v.seen s id = replay assetEffect (x.own schedule side).made (v.seen x.store) id :=
    h.seen_own v (fun k => k id) side (fun _ _ _ _ => assetEffect_congr)
      fun _ _ hc k => hc.asset hside k
  rw [hown h, hown h', replay_assetEffect _ hfaultless.keeps, replay_assetEffect _ hfaultless'.keeps]
  exact hfaultless.readLast_undated hfaultless' hsame fun _ _ => rfl

theorem edges_alike (v : View σ (List Edge) edgeEffect) (e : Edge) :
    e ∈ v.seen s ↔ e ∈ v.seen s' := by
  obtain ⟨side, hside⟩ := hapart.exists_maker e.origin
  obtain ⟨_, _, hfaultless, hfaultless', hsame⟩ := faultless_pair hapart h h' side
  have hown {schedule outcomes s} (h : x.Ends schedule outcomes s) :
      e ∈ v.seen s ↔ e ∈ replay edgeEffect (x.own schedule side).made (v.seen x.store) :=
    Iff.of_eq (h.seen_own v (fun k => e ∈ k) side
      (fun _ _ _ _ heq => propext (edgeEffect_congr (Iff.of_eq heq)))
      fun _ _ hc k => propext (hc.edge hside k))
  rw [hown h, hown h', hfaultless.edges_eq hfaultless' hsame]

theorem ledgers_alike (sight : Sight σ) (platform : String) :
    LedgerAlike (sight.ledger.seen s platform) (sight.ledger.seen s' platform) := by
  obtain ⟨side, hside⟩ := hapart.exists_platform platform
  obtain ⟨_, _, hfaultless, hfaultless', hsame⟩ := faultless_pair hapart h h' side
  have huntimed := hfaultless.untimed_eq hfaultless' hsame
  have hown {schedule outcomes s} (h : x.Ends schedule outcomes s) : sight.ledger.seen s platform
      = replay (ledgerReadEffect sight.reread) (x.own schedule side).made
        (sight.ledger.seen x.store) platform :=
    h.seen_own sight.ledger (fun k => k platform) side (fun _ _ _ _ => ledgerReadEffect_congr)
      fun _ _ hc k => hc.ledger hside sight.reread k
  obtain ⟨t, now, hledger⟩ := hfaultless.ledger sight.reread
  obtain ⟨t', now', hledger'⟩ := hfaultless'.ledger sight.reread
  rw [hown h, hown h', hledger, hledger']
  have hcompleted := congrArg RunOutcome.isCompleted huntimed
  change (outcomes side).isCompleted = (outcomes' side).isCompleted at hcompleted
  rw [← hcompleted]
  split
  · by_cases hp : platform = (x.sources side).platform
    · subst hp
      exact .of_record sight (congrArg RunOutcome.report huntimed) (h.durations side)
        (h'.durations side) _ t t' now now' _
    · -- neither pass records in the ledger of another platform
      show LedgerAlike (if platform = _ then _ else _) (if platform = _ then _ else _)
      rw [if_neg hp, if_neg hp]
      exact .same _
  · exact .same _

theorem messages_alike (v : View σ (List LoggedError) errorEffect) (platform : String) :
    messagesOf platform (v.seen s) = messagesOf platform (v.seen s') := by
  obtain ⟨side, hside⟩ := hapart.exists_platform platform
  obtain ⟨_, _, hfaultless, hfaultless', hsame⟩ := faultless_pair hapart h h' side
  have huntimed := hfaultless.untimed_eq hfaultless' hsame
  have hown {schedule outcomes s} (h : x.Ends schedule outcomes s) :
      messagesOf platform (v.seen s)
        = messagesOf platform (v.seen x.store) ++ messagesOf platform (x.own schedule side).logged := by
    rw [h.seen_own v (messagesOf platform) side (fun _ _ _ _ => errorEffect_congr)
      fun _ _ hc k => hc.log hside k, replay_errorEffect, messagesOf_append]
    rfl
  have hcompleted := congrArg RunOutcome.isCompleted huntimed
  change (outcomes side).isCompleted = (outcomes' side).isCompleted at hcompleted
  have herrors := congrArg (fun o => o.report.errors) huntimed
  change (outcomes side).report.errors = (outcomes' side).report.errors at herrors
  rw [hown h, hown h', hfaultless.messagesOf, hfaultless'.messagesOf, hcompleted, herrors]

end Alike

/-- **Schedules.** After all schedules the passes leave alike. -/
theorem alike (sight : Sight σ) (hapart : x.Apart) (h : x.Ends schedule outcomes s)
    (h' : x.Ends schedule' outcomes' s') : Alike sight outcomes outcomes' s s' where
  outcomes := outcomes_alike hapart h h'
  assets := assets_alike hapart h h' sight.assets
  edges := edges_alike hapart h h' sight.edges
  ledgers := ledgers_alike hapart h h' sight
  messages := messages_alike hapart h h' sight.errors

end Ends

/-- **Commuting.** Passes that stay apart report and leave the same, in whatever order they take
their steps, as when one of them waits for the end of the other, but for times, and for how the
errors of the one stand between those of the other. -/
theorem alike_of_ends (sight : Sight σ) (hapart : x.Apart) (h : x.Ends schedule outcomes s)
    (first : Side) (time : Side → Nat → Millis)
    (hfault : (Score.whole (x.scoreInTurn first time)).NoFault)
    (hdurations : ∀ side, (x.outcomesInTurn first time side).report.duration < Word.count 64) :
    Alike sight outcomes (x.outcomesInTurn first time) s (x.latter first time).2 := by
  obtain ⟨schedule', hplay⟩ := x.exists_schedule first time
  have h' : x.Ends schedule' (x.outcomesInTurn first time) (x.latter first time).2 := {
    ended := by rw [hplay]
    noFault := by
      rw [hplay]
      exact hfault
    durations := hdurations }
  exact h.alike sight hapart h'

end Duet

/-- An extractor of one asset that links to itself and to one of another platform, and of a file
that cannot be parsed. -/
def crossExtractor (platform id other : String) : Extractor where
  platform := platform
  source := platform
  discover _ := .ok [⟨"/a", "a"⟩, ⟨"/b", "b"⟩]
  extract _ now file :=
    if file.relative = "a" then
      .ok (some ⟨⟨id, id, "", .asset, platform, .untyped [("extractedAt", .string now.iso)]⟩,
        [id, other]⟩)
    else .error (.unparsed "/b" syntaxReason)

/-- Extractors of two platforms whose assets link to each other, over a store with an old asset, old
edges and a ledger. -/
def crossDuet : Duet MemoryStore where
  sources
    | .left => crossExtractor "react" "component:a" "doc:a"
    | .right => crossExtractor "docs" "doc:a" "component:a"
  tree := {}
  store := {
    assets := [.ofAsset 0 1 ⟨"doc:a", "old", "", .asset, "docs", .untyped []⟩]
    ledger := [⟨⟨"docs", [("errors", .ofNat 7), ("note", .string "kept")], 0⟩, 2⟩]
    edges := [⟨"component:a", "doc:a", importKind⟩, ⟨"doc:a", "component:a", "USES"⟩]
    revision := 2 }

theorem crossDuet_apart : crossDuet.Apart := by
  have hid : ∀ platform id other id', (crossExtractor platform id other).Makes {} id' → id' = id := by
    rintro platform id other id' ⟨_, file, _, x, _, _, hx, rfl⟩
    unfold crossExtractor at hx
    dsimp only at hx
    split at hx
    · obtain rfl := Option.some.inj (Except.ok.inj hx)
      rfl
    · exact nomatch hx
  refine ⟨by decide, fun id hleft hright => ?_, fun side => ?_⟩
  · have hsame := (hid _ _ _ _ hleft).symm.trans (hid _ _ _ _ hright)
    exact absurd hsame (by decide)
  · intro _ _ file _ now now'
    cases side
    all_goals
      unfold Extractor.undatedReading crossDuet crossExtractor
      dsimp only
      split <;> rfl

/-- The passes take their steps by turns. -/
def crossSchedule : List (Side × Millis) :=
  (List.range 12).flatMap fun n => [(.left, n), (.right, n)]

/-- What each of them reports. -/
def crossOutcome : RunOutcome where
  isCompleted := true
  report := {
    totalFiles := 2
    processedFiles := 1
    extractedComponents := 1
    errors := [Pass.fileError ⟨"/b", "b"⟩ (SourceFault.unparsed "/b" syntaxReason).message]
    duration := 8 }

theorem alike_of_ends_crossDuet :
    let s := (crossDuet.play crossSchedule).2.store
    let time (_ : Side) (n : Nat) : Millis := n
    crossDuet.Apart ∧ crossDuet.Ends crossSchedule (fun _ => crossOutcome) s
      ∧ (Score.whole (crossDuet.scoreInTurn .right time)).NoFault
      ∧ Duet.Alike MemoryStore.sight (fun _ => crossOutcome) (crossDuet.outcomesInTurn .right time) s
        (crossDuet.latter .right time).2 := by
  intro s time
  have hends : crossDuet.Ends crossSchedule (fun _ => crossOutcome) s := {
    ended := by
      have hruns : (crossDuet.play crossSchedule).2.runs = fun _ => .done crossOutcome := by
        funext side
        cases side <;> rfl
      exact congrArg (Tandem.mk · s) hruns
    noFault := Tandem.noFault_play _ _ _ _
    durations := fun _ => by decide }
  have hfault : (Score.whole (crossDuet.scoreInTurn .right time)).NoFault := by
    obtain ⟨schedule, hplay⟩ := crossDuet.exists_schedule .right time
    have hnone := Tandem.noFault_play crossDuet.sources crossDuet.tree schedule
      (.start crossDuet.sources crossDuet.store)
    change (Score.whole (crossDuet.play schedule).1).NoFault at hnone
    rwa [hplay] at hnone
  have hdurations : ∀ side,
      (crossDuet.outcomesInTurn .right time side).report.duration < Word.count 64 := by
    intro side
    cases side <;> decide
  exact ⟨crossDuet_apart, hends, hfault, Duet.alike_of_ends MemoryStore.sight crossDuet_apart hends
    .right time hfault hdurations⟩

end ContentGraph
