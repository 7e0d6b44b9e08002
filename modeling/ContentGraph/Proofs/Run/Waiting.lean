import ContentGraph.Proofs.Run.Finality

/-!
# Waiting for the end of a run

Whoever waits looks a run up, watches it until it is over and looks it up once more. A registry of
retention `n` remembers a run as long as at most `n` of its platform started behind it
(`Follows.find?_eq_some_iff`), and between the end of a run and the last look further ones may
start. So one who waits for a run that was found wakes when it is over, and is told its last record
just when the run is remembered still at the last look (`awaited_of_found`); otherwise nothing is
told (`forgotten_before_read`).
-/

namespace ContentGraph

open Registry

variable {n : Nat} {all kept : List RunRecord} {r : Registry} {id : String} {run : RunRecord}

/-! ## Which runs are remembered -/

/-- Holds for a run behind which at most `n` runs of its platform started. -/
def IsRecent (n : Nat) (all : List RunRecord) (run : RunRecord) : Prop :=
  ∃ before behind, all.filter (isOf run.platform) = before ++ run :: behind ∧ behind.length ≤ n

theorem mem_rtake_iff {runs : List RunRecord} :
    run ∈ runs.rtake (n + 1)
      ↔ ∃ before behind, runs = before ++ run :: behind ∧ behind.length ≤ n := by
  unfold List.rtake
  constructor
  · intro hmem
    obtain ⟨front, behind, hkept⟩ := List.append_of_mem hmem
    refine ⟨runs.take (runs.length - (n + 1)) ++ front, behind, ?_, ?_⟩
    · rw [List.append_assoc, ← hkept, List.take_append_drop]
    · have hlength := congrArg List.length hkept
      simp only [List.length_drop, List.length_append, List.length_cons] at hlength
      omega
  · rintro ⟨before, behind, rfl, hbehind⟩
    have hle : (before ++ run :: behind).length - (n + 1) ≤ before.length := by
      simp only [List.length_append, List.length_cons]
      omega
    rw [List.drop_append_of_le_length hle]
    exact List.mem_append_right _ List.mem_cons_self

/-- Of a platform the latest runs are remembered, whether or not one is in progress. -/
theorem Tracks.eq_rtake (h : Tracks n all kept) : kept = all.rtake (n + 1) := by
  cases h with
  | idle => rfl
  | busy => rw [List.rtake_concat_succ]

/-- A run that is in progress is the latest of its platform. -/
theorem Tracks.mem_of_unfinished (h : Tracks n all kept) (hrun : run ∈ all)
    (hunfinished : run.isFinished = false) : run ∈ kept := by
  cases h with
  | idle hpast =>
      rw [hpast run hrun] at hunfinished
      exact nomatch hunfinished
  | busy hpast =>
      rcases List.mem_append.1 hrun with hold | hlast
      · rw [hpast run hold] at hunfinished
        exact nomatch hunfinished
      · exact List.mem_append_right _ hlast

namespace Follows

theorem mem_records_iff (h : Follows n r all) : run ∈ r.records ↔ IsRecent n all run := by
  have hof : run ∈ r.records ↔ run ∈ r.records.filter (isOf run.platform) := by
    simp [isOf]
  rw [hof, (h.tracks run.platform).eq_rtake, mem_rtake_iff]
  rfl

theorem mem_records_of_unfinished (h : Follows n r all) (hrun : run ∈ all)
    (hunfinished : run.isFinished = false) : run ∈ r.records := by
  have hof : run ∈ all.filter (isOf run.platform) := List.mem_filter.2 ⟨hrun, by simp [isOf]⟩
  exact (List.mem_filter.1 ((h.tracks run.platform).mem_of_unfinished hof hunfinished)).1

section

variable (h : Follows n r all) (hids : (all.map (·.id)).Nodup)

include h hids

theorem find?_eq_some_of_mem (hrun : run ∈ r.records) : r.find? run.id = some run := by
  have hsome : (r.find? run.id).isSome = true := List.find?_isSome.2 ⟨run, hrun, by simp⟩
  obtain ⟨found, hfound⟩ := Option.isSome_iff_exists.1 hsome
  have hsame := List.inj_on_of_nodup_map hids
    (h.remembered.subset (List.mem_of_find?_eq_some hfound)) (h.remembered.subset hrun)
    (id_of_find? hfound)
  rw [hfound, hsame]

/-- **Memory.** A run is found just when at most `n` of its platform started behind it. -/
theorem find?_eq_some_iff : r.find? id = some run ↔ run.id = id ∧ IsRecent n all run := by
  rw [← h.mem_records_iff]
  constructor
  · exact fun hfound => ⟨id_of_find? hfound, List.mem_of_find?_eq_some hfound⟩
  · rintro ⟨rfl, hrun⟩
    exact h.find?_eq_some_of_mem hids hrun

/-- A run that is found is the one of the chronicle. -/
theorem eq_of_find? (hrun : run ∈ all) {found : RunRecord} (hfound : r.find? run.id = some found) :
    found = run :=
  List.inj_on_of_nodup_map hids (h.remembered.subset (List.mem_of_find?_eq_some hfound)) hrun
    (id_of_find? hfound)

/-- Who watches a run wakes when it is over; a run that is forgotten is. -/
theorem all_isFinished_iff (hid : id ∈ all.map (·.id)) :
    (r.find? id).all (·.isFinished) = true ↔ ∃ run ∈ all, run.id = id ∧ run.isFinished = true := by
  constructor
  · intro hall
    obtain ⟨run, hrun, rfl⟩ := List.mem_map.1 hid
    refine ⟨run, hrun, rfl, ?_⟩
    by_contra hunfinished
    rw [Bool.not_eq_true] at hunfinished
    rw [h.find?_eq_some_of_mem hids (h.mem_records_of_unfinished hrun hunfinished)] at hall
    exact Bool.false_ne_true (hunfinished.symm.trans hall)
  · rintro ⟨run, hrun, rfl, hover⟩
    rw [Option.all_eq_true]
    intro found hfound
    rw [h.eq_of_find? hids hrun hfound]
    exact hover

end

end Follows

/-! ## Those who wait -/

/-- Where someone who waits stands after so many requests of a history. -/
def waiterAt (retention : Nat) (history : List Request) (place i : Nat) : Option Waiter :=
  (after retention (history.take i)).waiters[place]?

theorem step_watching (r : Registry) (id : String) :
    Waiter.step r (.watching id)
      = if (r.find? id).all (·.isFinished) then .reading id else .watching id := rfl

/-- A waiter takes a step when woken, and else stands where it stood. -/
theorem waiters_step {w : Watched} {place : Nat} {waiter : Waiter}
    (h : w.waiters[place]? = some waiter) (q : Request) :
    (w.step q).waiters[place]? = some waiter ∧ q ≠ .wake place
      ∨ (w.step q).waiters[place]? = some (waiter.step w.registry) ∧ q = .wake place := by
  cases q with
  | dispatch id platform now => exact .inl ⟨h, nofun⟩
  | complete id outcome now => exact .inl ⟨h, nofun⟩
  | cancel id now => exact .inl ⟨h, nofun⟩
  | status id => exact .inl ⟨h, nofun⟩
  | wait id =>
      refine .inl ⟨?_, nofun⟩
      show (w.waiters ++ [.looking id])[place]? = _
      rw [List.getElem?_append_left (List.getElem?_eq_some_iff.1 h).1, h]
  | wake other =>
      show (w.waiters.modify other _)[place]? = _ ∧ _ ∨ (w.waiters.modify other _)[place]? = _ ∧ _
      rw [List.getElem?_modify, h]
      by_cases hplace : other = place
      · subst hplace
        exact .inr ⟨by simp, rfl⟩
      · refine .inl ⟨by simp [hplace], fun heq => hplace ?_⟩
        injection heq

section

variable {retention : Nat} {history : List Request} {place i : Nat} {waiter : Waiter}

theorem waiterAt_succ (h : waiterAt retention history place i = some waiter) :
    waiterAt retention history place (i + 1) = some waiter ∧ history[i]? ≠ some (.wake place)
      ∨ waiterAt retention history place (i + 1)
          = some (waiter.step (after retention (history.take i)).registry)
        ∧ history[i]? = some (.wake place) := by
  unfold waiterAt
  rw [List.take_add_one]
  cases hnext : history[i]? with
  | none =>
      rw [Option.toList_none, List.append_nil]
      exact .inl ⟨h, nofun⟩
  | some q =>
      rw [Option.toList_some, after_concat, Ne, Option.some.injEq]
      exact waiters_step h q

theorem mem_chronicle_succ (hrun : run ∈ chronicle (history.take i))
    (hover : run.isFinished = true) : run ∈ chronicle (history.take (i + 1)) := by
  rw [List.take_add_one]
  exact mem_chronicle_append hrun hover _

theorem mem_ids_succ (hid : id ∈ (chronicle (history.take i)).map (·.id)) :
    id ∈ (chronicle (history.take (i + 1))).map (·.id) := by
  rw [List.take_add_one]
  exact (ids_chronicle_append _ _).subset hid

/-- Someone who waits for a run, which is over by then, looks it up for the last time. -/
structure LooksLast (retention : Nat) (history : List Request) (place : Nat) (run : RunRecord)
    (last : Nat) : Prop where
  reads : waiterAt retention history place last = some (.reading run.id)
  woken : history[last]? = some (.wake place)
  started : run ∈ chronicle (history.take last)
  isOver : run.isFinished = true

/-- Where someone stands who waits for a run, as the chronicle tells it. -/
inductive Awaits (retention : Nat) (history : List Request) (place : Nat) (id : String) (i : Nat) :
    Waiter → Prop
  | watching (hid : id ∈ (chronicle (history.take i)).map (·.id)) :
      Awaits retention history place id i (.watching id)
  | reading {run : RunRecord} (hrun : run ∈ chronicle (history.take i)) (hid : run.id = id)
      (hover : run.isFinished = true) : Awaits retention history place id i (.reading id)
  /-- At the last look, the run was remembered. -/
  | told {run : RunRecord} {last : Nat} (hlast : last < i) (hid : run.id = id)
      (hlooks : LooksLast retention history place run last)
      (hrecent : IsRecent retention (chronicle (history.take last)) run) :
      Awaits retention history place id i (.answered (some run))
  /-- At the last look, too many runs of the platform had started. -/
  | missed {run : RunRecord} {last : Nat} (hlast : last < i) (hid : run.id = id)
      (hlooks : LooksLast retention history place run last)
      (hforgotten : ¬IsRecent retention (chronicle (history.take last)) run) :
      Awaits retention history place id i (.answered none)

/-- What holds of a waiter holds as long as it takes no step. -/
theorem Awaits.stay (h : Awaits retention history place id i waiter) :
    Awaits retention history place id (i + 1) waiter := by
  cases h with
  | watching hid => exact .watching (mem_ids_succ hid)
  | reading hrun hid hover => exact .reading (mem_chronicle_succ hrun hover) hid hover
  | told hlast hid hlooks hrecent => exact .told (Nat.lt_succ_of_lt hlast) hid hlooks hrecent
  | missed hlast hid hlooks hforgotten =>
      exact .missed (Nat.lt_succ_of_lt hlast) hid hlooks hforgotten

variable (hids : ((chronicle history).map (·.id)).Nodup)

include hids

/-- The last look finds the record of the end just when the run is recent. -/
theorem awaits_of_looksLast (hlooks : LooksLast retention history place run i) :
    Awaits retention history place run.id (i + 1)
      (.answered ((after retention (history.take i)).registry.find? run.id)) := by
  have hfollows := follows_after retention (history.take i)
  have hiff : (after retention (history.take i)).registry.find? run.id = some run
      ↔ IsRecent retention (chronicle (history.take i)) run :=
    (hfollows.find?_eq_some_iff (nodup_ids_take hids i)).trans (and_iff_right rfl)
  by_cases hrecent : IsRecent retention (chronicle (history.take i)) run
  · rw [hiff.2 hrecent]
    exact .told (Nat.lt_succ_self i) rfl hlooks hrecent
  · have hnone : (after retention (history.take i)).registry.find? run.id = none := by
      rw [Option.eq_none_iff_forall_ne_some]
      intro found hfound
      obtain rfl := hfollows.eq_of_find? (nodup_ids_take hids i) hlooks.started hfound
      exact hrecent (hiff.1 hfound)
    rw [hnone]
    exact .missed (Nat.lt_succ_self i) rfl hlooks hrecent

/-- **Waking.** Who watches a run and is woken goes on watching, or is to look for the last time
when the run is over. -/
theorem awaits_of_woken (hwoken : history[i]? = some (.wake place))
    (hwaiter : waiterAt retention history place i = some (.watching id))
    (hid : id ∈ (chronicle (history.take i)).map (·.id)) :
    ∃ next, waiterAt retention history place (i + 1) = some next
      ∧ Awaits retention history place id (i + 1) next
      ∧ (next = .reading id
        ↔ ∃ run ∈ chronicle (history.take i), run.id = id ∧ run.isFinished = true) := by
  have hwakes := (follows_after retention (history.take i)).all_isFinished_iff
    (nodup_ids_take hids i) hid
  have hnext : waiterAt retention history place (i + 1)
      = some (Waiter.step (after retention (history.take i)).registry (.watching id)) :=
    ((waiterAt_succ hwaiter).resolve_left fun h => h.2 hwoken).1
  refine ⟨_, hnext, ?_⟩
  rw [step_watching, ← hwakes]
  split
  · next hall =>
    obtain ⟨run, hrun, hown, hover⟩ := hwakes.1 hall
    exact ⟨.reading (mem_chronicle_succ hrun hover) hown hover, iff_of_true rfl hall⟩
  · next hall => exact ⟨.watching (mem_ids_succ hid), iff_of_false nofun hall⟩

/-- **Step.** What the chronicle tells of a waiter goes on to hold. -/
theorem Awaits.step (hwaiter : waiterAt retention history place i = some waiter)
    (h : Awaits retention history place id i waiter) :
    ∃ next, waiterAt retention history place (i + 1) = some next
      ∧ Awaits retention history place id (i + 1) next := by
  obtain ⟨hnext, -⟩ | ⟨hnext, hwoken⟩ := waiterAt_succ hwaiter
  · exact ⟨waiter, hnext, h.stay⟩
  · cases h with
    | watching hid =>
        obtain ⟨next, hthen, hawaits, -⟩ := awaits_of_woken hids hwoken hwaiter hid
        exact ⟨next, hthen, hawaits⟩
    | reading hrun hid hover =>
        subst hid
        exact ⟨_, hnext, awaits_of_looksLast hids ⟨hwaiter, hwoken, hrun, hover⟩⟩
    | told hlast hid hlooks hrecent => exact ⟨_, hnext, (told hlast hid hlooks hrecent).stay⟩
    | missed hlast hid hlooks hforgotten =>
        exact ⟨_, hnext, (missed hlast hid hlooks hforgotten).stay⟩

/-- **Run.** Who found the run is told of by the chronicle from then on. -/
theorem awaits_behind (hlooks : waiterAt retention history place i = some (.looking id))
    (hwoken : history[i]? = some (.wake place))
    (hfound : (recordAt retention history id i).isSome = true) (j : Nat) (hij : i < j) :
    ∃ waiter, waiterAt retention history place j = some waiter
      ∧ Awaits retention history place id j waiter := by
  induction j, hij using Nat.le_induction with
  | base =>
      have hnext : waiterAt retention history place (i + 1)
          = some (Waiter.step (after retention (history.take i)).registry (.looking id)) :=
        ((waiterAt_succ hlooks).resolve_left fun h => h.2 hwoken).1
      obtain ⟨run, hrun⟩ := Option.isSome_iff_exists.1 hfound
      obtain ⟨hmem, hid⟩ := mem_chronicle_of_recordAt hrun
      have hwatch : Waiter.step (after retention (history.take i)).registry (.looking id)
          = .watching id := if_pos hfound
      rw [hwatch] at hnext
      exact ⟨_, hnext, .watching (mem_ids_succ (List.mem_map.2 ⟨run, hmem, hid⟩))⟩
  | succ j _ ih =>
      obtain ⟨waiter, hwaiter, hawaits⟩ := ih
      exact hawaits.step hids hwaiter

end

/-! ## What is told -/

/-- What comes of waiting for a run that was found at some position. -/
structure Awaited (retention : Nat) (history : List Request) (place : Nat) (id : String)
    (found : Nat) : Prop where
  /-- The waiter watches, is to read the record of a run that is over, or was answered: with that
  record if the run was remembered then, and with nothing if it was not. -/
  stands : ∀ j, found < j → ∃ waiter, waiterAt retention history place j = some waiter
    ∧ Awaits retention history place id j waiter
  /-- Who watches wakes when the run is over, and not before. -/
  wakes : ∀ j, found < j → waiterAt retention history place j = some (.watching id) →
    history[j]? = some (.wake place) →
      (waiterAt retention history place (j + 1) = some (.reading id)
        ↔ ∃ run ∈ chronicle (history.take j), run.id = id ∧ run.isFinished = true)
  /-- Who reads is answered. -/
  answered : ∀ j, found < j → waiterAt retention history place j = some (.reading id) →
    history[j]? = some (.wake place) →
      ∃ record, waiterAt retention history place (j + 1) = some (.answered record)

/-- **Waiting.** Whatever happens while someone waits for a run that was found, the waiter wakes
when the run is over and is told no record but that of its end. It is told this record just when, at
the last look, no more runs of the platform had started behind the run than the retention. -/
theorem awaited_of_found (retention : Nat) {history : List Request}
    (hids : ((chronicle history).map (·.id)).Nodup) {place found : Nat} {id : String}
    (hlooks : waiterAt retention history place found = some (.looking id))
    (hwoken : history[found]? = some (.wake place))
    (hfound : (recordAt retention history id found).isSome = true) :
    Awaited retention history place id found := by
  have hstands := awaits_behind hids hlooks hwoken hfound
  refine ⟨hstands, fun j hj hwatches hwake => ?_, fun j _ hreads hwake => ?_⟩
  · obtain ⟨waiter, hwaiter, hawaits⟩ := hstands j hj
    obtain rfl := Option.some.inj (hwatches.symm.trans hwaiter)
    cases hawaits with
    | watching hid =>
        obtain ⟨next, hnext, -, hiff⟩ := awaits_of_woken hids hwake hwaiter hid
        rw [hnext, Option.some.injEq]
        exact hiff
  · exact ⟨_, ((waiterAt_succ hreads).resolve_left fun h => h.2 hwake).1⟩

/-- Two wait for a run. Behind its end one looks at once, the other when a further run started. -/
def lateLook : List Request :=
  [.dispatch "1" "docs" 1, .wait "1", .wait "1", .wake 0, .wake 1,
    .complete "1" ⟨true, { totalFiles := 1, processedFiles := 1 }⟩ 2, .wake 0, .wake 1, .wake 0,
    .dispatch "2" "docs" 3, .wake 1]

/-- Of the two, the first is told the record of the end. -/
theorem awaited_of_found_lateLook :
    ((chronicle lateLook).map (·.id)).Nodup
      ∧ waiterAt 0 lateLook 0 3 = some (.looking "1") ∧ lateLook[3]? = some (.wake 0)
      ∧ (recordAt 0 lateLook "1" 3).isSome = true ∧ Awaited 0 lateLook 0 "1" 3
      ∧ waiterAt 0 lateLook 0 9 = some (.answered (recordAt 0 lateLook "1" 9))
      ∧ (recordAt 0 lateLook "1" 9).any (·.isFinished) = true := by
  have hids : ((chronicle lateLook).map (·.id)).Nodup := by decide
  have hlooks : waiterAt 0 lateLook 0 3 = some (.looking "1") := by decide
  have hfound : (recordAt 0 lateLook "1" 3).isSome = true := by decide
  exact ⟨hids, hlooks, rfl, hfound, awaited_of_found 0 hids hlooks rfl hfound, by decide,
    by decide⟩

/-- The second found the run as well, and is told nothing. -/
theorem forgotten_before_read :
    ¬∀ retention history place found id, ((chronicle history).map (·.id)).Nodup →
      waiterAt retention history place found = some (.looking id) →
      history[found]? = some (.wake place) →
      (recordAt retention history id found).isSome = true →
      ∀ j record, found < j → waiterAt retention history place j = some (.answered record) →
        ∃ run, record = some run ∧ run.id = id ∧ run.isFinished = true := by
  intro h
  obtain ⟨run, hrun, -⟩ := h 0 lateLook 1 4 "1" (by decide) (by decide) rfl (by decide) 11 none
    (by decide) (by decide)
  cases hrun

end ContentGraph
