import ContentGraph.Proofs.Run.Readings
import Mathlib.Data.List.Forall2

/-!
# What passes leave in a ledger

A pass that completes writes the ledger of its platform once, at its end, and others do not write it
(`Pass.Faultless.ledger`). Main statements: what is told to a ledger once more leaves it as it was,
but for times (`Pass.toldAgain`), and passes that report the same, whenever they do, leave ledgers
that are read alike (`LedgerAlike.of_record`).
-/

namespace ContentGraph

open Discovery (Candidate)
open Store (Backend Change Fault)

namespace Pass

variable {platform : String} {T : Transcript} {o : RunOutcome}

/-- What is read of the ledger after a pass in which no change fails. -/
theorem Faultless.ledger {listing : Except Discovery.Fault (List Candidate)}
    (h : Faultless platform listing T o) (reread : Json → Option Json) :
    ∃ t now, ∀ k, replay (ledgerReadEffect reread) T.made k
      = if o.isCompleted = true then
          ledgerReadEffect reread t (.record platform (ledgerFields now o.report)) k
        else k := by
  cases hcompleted : o.isCompleted with
  | false =>
      refine ⟨0, 0, fun k => ?_⟩
      rw [h.unrecorded hcompleted]
      rfl
  | true =>
      obtain ⟨front, t, now, rfl, hfront⟩ := h.recorded hcompleted
      refine ⟨t, now, fun k => ?_⟩
      rw [Transcript.made_append, replay_append, replay_ledgerReadEffect hfront]
      rfl

/-- Where no change fails, the ledger that a pass records in could be read before. -/
theorem Faultless.readable {σ : Type} [Backend σ]
    {listing : Except Discovery.Fault (List Candidate)} (sight : Sight σ)
    (h : Faultless platform listing T o) (hcompleted : o.isCompleted = true) {source : Extractor}
    {tree : FileTree} {s s' : σ} (hover : Routine.Over source tree s T s') :
    ∃ e, sight.ledger.seen s platform = .ok e := by
  obtain ⟨front, t, now, rfl, -⟩ := h.recorded hcompleted
  exact sight.readable_of_over hover (List.mem_append_right _ List.mem_cons_self)

/-! ## What is told once more -/

/-- The keys under which a pass tells of times. -/
def timeKeys : List String := ["lastExtraction", "duration"]

/-- How fields that were told to a ledger once more compare with those that were read before: but for
times they are the same, and what no pass writes is what is read of its text. -/
def ToldAgain (reread : Json → Option Json) (old new : Fields) : Prop :=
  ∀ key ∉ timeKeys,
    new.get? key = if key ∈ ledgerKeys then old.get? key else (old.get? key).bind reread

variable {σ : Type} [Backend σ] {r₁ r₂ : RunReport} {old read : Fields} {now₁ now₂ : Millis}

/-- What passes tell that report the same is the same, but for times. -/
theorem told_alike (hsame : { r₁ with duration := 0 } = { r₂ with duration := 0 })
    {new₁ new₂ old₁ old₂ : Fields} (h₁ : Told now₁ r₁ old₁ new₁) (h₂ : Told now₂ r₂ old₂ new₂)
    {key : String} (hkey : key ∈ ledgerKeys) (htime : key ∉ timeKeys) :
    new₂.get? key = new₁.get? key := by
  obtain ⟨htotal, hprocessed, hextracted, herrors, -⟩ := RunReport.mk.inj hsame
  simp only [ledgerKeys, List.mem_cons, List.not_mem_nil, or_false] at hkey
  rcases hkey with rfl | rfl | rfl | rfl | rfl | rfl
  · exact absurd (by decide) htime
  · rw [h₂.totalFiles, h₁.totalFiles, htotal]
  · rw [h₂.processedFiles, h₁.processedFiles, hprocessed]
  · rw [h₂.extractedComponents, h₁.extractedComponents, hextracted]
  · rw [h₂.errors, h₁.errors, herrors]
  · exact absurd (by decide) htime

/-- **Ledgers.** What is told once more can be read, if what was read before can be written and read
again. -/
theorem toldAgain (sight : Sight σ)
    (hsame : { r₁ with duration := 0 } = { r₂ with duration := 0 })
    (hduration : r₂.duration < Word.count 64)
    (hread : Json.rereadFields sight.reread (LedgerEntry.merge old (ledgerFields now₁ r₁)) = some read)
    (hagain : ∀ p ∈ read, (sight.reread p.2).isSome = true) :
    ∃ read', Json.rereadFields sight.reread (LedgerEntry.merge read (ledgerFields now₂ r₂))
      = some read' ∧ ToldAgain sight.reread read read' := by
  have htold₁ := told_merge now₁ r₁ old
  have htold₂ := told_merge now₂ r₂ read
  have hsome : ∀ p ∈ LedgerEntry.merge read (ledgerFields now₂ r₂),
      (sight.reread p.2).isSome = true := by
    -- what was told in the first place could be read
    have htold {key : String} {v : Json}
        (h : (LedgerEntry.merge old (ledgerFields now₁ r₁)).get? key = some v) :
        (sight.reread v).isSome = true :=
      Json.isSome_of_rereadFields hread (Fields.mem_of_get? h)
    obtain ⟨htotal, hprocessed, hextracted, herrors, -⟩ := RunReport.mk.inj hsame
    intro p hp
    rcases LedgerEntry.mem_merge hp with hp | ⟨hp, -⟩
    · exact hagain p hp
    · have hmem := Fields.mem_ofList hp
      simp only [List.mem_cons, List.not_mem_nil, or_false] at hmem
      rcases hmem with rfl | rfl | rfl | rfl | rfl | rfl
      · exact Option.isSome_of_eq_some (sight.texts _)
      · exact htotal ▸ htold htold₁.totalFiles
      · exact hprocessed ▸ htold htold₁.processedFiles
      · exact hextracted ▸ htold htold₁.extractedComponents
      · exact herrors ▸ htold htold₁.errors
      · exact Option.isSome_of_eq_some (sight.words _ ⟨by omega, by exact_mod_cast hduration⟩)
  obtain ⟨read', hread'⟩ := Json.exists_rereadFields hsome
  refine ⟨read', hread', fun key htime => ?_⟩
  rw [Json.get?_rereadFields hread']
  split
  · next hkey =>
      rw [told_alike hsame htold₁ htold₂ hkey htime, Json.get?_rereadFields hread]
  · next hkey => rw [htold₂.kept key hkey]

/-! ## Reports that tell the same -/

/-- Fields with one key: their values are the same, or they tell of times that can be read. -/
inductive FieldAlike (reread : Json → Option Json) : String × Json → String × Json → Prop
  | same (p) : FieldAlike reread p p
  | time {key v v'} (hkey : key ∈ timeKeys) (hv : (reread v).isSome = true)
      (hv' : (reread v').isSome = true) : FieldAlike reread (key, v) (key, v')

theorem FieldAlike.key_eq {reread : Json → Option Json} {p q : String × Json}
    (h : FieldAlike reread p q) : q.1 = p.1 := by
  cases h <;> rfl

/-- Fields that are the same, but for times. -/
abbrev FieldsAlike (reread : Json → Option Json) : Fields → Fields → Prop :=
  List.Forall₂ (FieldAlike reread)

namespace FieldsAlike

variable {reread : Json → Option Json} {fields fields' new new' : Fields}

theorem refl (fields : Fields) : FieldsAlike reread fields fields :=
  List.forall₂_same.2 fun p _ => .same p

theorem insert (h : FieldsAlike reread fields fields') {key : String} {v v' : Json}
    (hv : FieldAlike reread (key, v) (key, v')) :
    FieldsAlike reread (fields.insert key v) (fields'.insert key v') := by
  induction h with
  | nil => exact .cons hv .nil
  | @cons p q fields fields' hpq h ih =>
      obtain ⟨k, w⟩ := p
      obtain ⟨k', w'⟩ := q
      obtain rfl : k' = k := hpq.key_eq
      unfold Fields.insert
      split
      · exact .cons hv (.cons hpq h)
      · split
        · exact .cons hv h
        · exact .cons hpq ih

theorem ofList {pairs pairs' : List (String × Json)}
    (h : List.Forall₂ (FieldAlike reread) pairs pairs') :
    FieldsAlike reread (Fields.ofList pairs) (Fields.ofList pairs') := by
  unfold Fields.ofList
  suffices hgo : ∀ {fields fields' : Fields}, FieldsAlike reread fields fields' →
      FieldsAlike reread (pairs.foldl (fun fields p => fields.insert p.1 p.2) fields)
        (pairs'.foldl (fun fields p => fields.insert p.1 p.2) fields') from hgo .nil
  induction h with
  | nil => exact fun h => h
  | @cons p q pairs pairs' hpq _ ih =>
      intro fields fields' hfields
      obtain ⟨k, v⟩ := p
      obtain ⟨k', v'⟩ := q
      obtain rfl : k' = k := hpq.key_eq
      exact ih (hfields.insert hpq)

theorem merge (h : FieldsAlike reread fields fields') (hnew : FieldsAlike reread new new') :
    FieldsAlike reread (LedgerEntry.merge fields new) (LedgerEntry.merge fields' new') := by
  unfold LedgerEntry.merge
  induction hnew generalizing fields fields' with
  | nil => exact h
  | @cons p q new new' hpq _ ih =>
      obtain ⟨k, v⟩ := p
      obtain ⟨k', v'⟩ := q
      obtain rfl : k' = k := hpq.key_eq
      refine ih ?_
      dsimp only
      split
      · exact h
      · exact h.insert hpq

/-- Fields that are alike can both be read, and are read alike, or neither can. -/
theorem readAlike (h : FieldsAlike reread fields fields') :
    (Json.rereadFields reread fields = none ∧ Json.rereadFields reread fields' = none)
      ∨ ∃ read read', Json.rereadFields reread fields = some read
        ∧ Json.rereadFields reread fields' = some read'
        ∧ ∀ key ∉ timeKeys, read'.get? key = read.get? key := by
  induction h with
  | nil => exact .inr ⟨[], [], rfl, rfl, fun _ _ => rfl⟩
  | @cons p q fields fields' hpq h ih =>
      rw [Json.rereadFields_cons, Json.rereadFields_cons]
      rcases ih with ⟨hnone, hnone'⟩ | ⟨read, read', hread, hread', hget⟩
      · rw [hnone, hnone']
        left
        constructor
        · cases reread p.2 <;> rfl
        · cases reread q.2 <;> rfl
      · rw [hread, hread']
        cases hpq with
        | same =>
            obtain ⟨k, w⟩ := p
            cases hw : reread w with
            | none => exact .inl ⟨rfl, rfl⟩
            | some v =>
                refine .inr ⟨_, _, rfl, rfl, fun key htime => ?_⟩
                unfold Fields.get?
                rw [hget key htime]
        | @time k w w' hkey hw hw' =>
            obtain ⟨v, hv⟩ := Option.isSome_iff_exists.1 hw
            obtain ⟨v', hv'⟩ := Option.isSome_iff_exists.1 hw'
            rw [hv, hv']
            refine .inr ⟨_, _, rfl, rfl, fun key htime => ?_⟩
            have hne : k ≠ key := fun heq => htime (heq ▸ hkey)
            unfold Fields.get?
            rw [if_neg hne, if_neg hne, hget key htime]

end FieldsAlike

/-- What reports tell that are the same but for the time that they took. -/
theorem ledgerFields_alike {σ : Type} [Backend σ] (sight : Sight σ) {r r' : RunReport}
    (hsame : { r with duration := 0 } = { r' with duration := 0 })
    (hr : r.duration < Word.count 64) (hr' : r'.duration < Word.count 64) (now now' : Millis) :
    FieldsAlike sight.reread (ledgerFields now r) (ledgerFields now' r') := by
  obtain ⟨total, processed, extracted, errors, duration⟩ := r
  obtain ⟨total', processed', extracted', errors', duration'⟩ := r'
  obtain ⟨rfl, rfl, rfl, rfl, -⟩ := RunReport.mk.inj hsame
  have hduration {n : Nat} (hn : n < Word.count 64) : (sight.reread (.ofNat n)).isSome = true :=
    Option.isSome_of_eq_some (sight.words _ ⟨by omega, by exact_mod_cast hn⟩)
  have htext (now : Millis) : (sight.reread (.string now.iso)).isSome = true :=
    Option.isSome_of_eq_some (sight.texts _)
  exact .ofList (.cons (.time (by decide) (htext now) (htext now'))
    (.cons (.same _) (.cons (.same _) (.cons (.same _) (.cons (.same _)
      (.cons (.time (by decide) (hduration hr) (hduration hr')) .nil))))))

end Pass

/-- Holds for what is read of two ledgers that is the same, but for times. -/
inductive LedgerAlike :
    Except Fault (Option LedgerEntry) → Except Fault (Option LedgerEntry) → Prop
  | same (k) : LedgerAlike k k
  | told {e e' : LedgerEntry} (platform : e'.platform = e.platform)
      (fields : ∀ key ∉ Pass.timeKeys, e'.fields.get? key = e.fields.get? key) :
      LedgerAlike (.ok (some e)) (.ok (some e'))

/-- **Reports.** Reports that are the same, but for the time that they took, leave what is read of a
ledger alike, whenever they are told to it. -/
theorem LedgerAlike.of_record {σ : Type} [Backend σ] (sight : Sight σ) {r r' : RunReport}
    (hsame : { r with duration := 0 } = { r' with duration := 0 })
    (hr : r.duration < Word.count 64) (hr' : r'.duration < Word.count 64)
    (platform : String) (t t' now now' : Millis) (k : LedgerRead) :
    LedgerAlike
      (ledgerReadEffect sight.reread t (.record platform (Pass.ledgerFields now r)) k platform)
      (ledgerReadEffect sight.reread t' (.record platform (Pass.ledgerFields now' r')) k platform) := by
  rw [ledgerReadEffect_record, ledgerReadEffect_record]
  cases k platform with
  | error e => exact .same _
  | ok old =>
      dsimp only
      unfold readEntry
      have halike := Pass.FieldsAlike.merge (.refl ((old.map (·.fields)).getD []))
        (Pass.ledgerFields_alike sight hsame hr hr' now now')
      rcases Pass.FieldsAlike.readAlike halike with ⟨hnone, hnone'⟩ | ⟨read, read', hread, hread', hget⟩
      · rw [hnone, hnone']
        exact .same _
      · rw [hread, hread']
        exact .told rfl hget

end ContentGraph
