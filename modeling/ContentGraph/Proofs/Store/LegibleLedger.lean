import ContentGraph.Proofs.Asset.Legible
import ContentGraph.Proofs.Store.History
import ContentGraph.Proofs.Store.Sight

/-!
# Ledgers that can be read

The ledger of a platform is *legible* when no value that it was given is nested deeper than is read,
under a key that is not reserved. Where the ledger is kept as text, what is read of it hinges on that
(`hinges_readLedger`): each update reads the old text and writes a new one, so one value that lies too
deep ends all reading, and no later update can mend it.
-/

namespace ContentGraph

open Store (Change Fault)

/-! ## Answers that hinge on what is legible -/

/-- An answer that is given exactly when something holds; otherwise a text cannot be read. -/
inductive Hinges {α : Type} (legible : Prop) : Except Fault α → Prop
  | given (h : legible) (x : α) : Hinges legible (.ok x)
  | missing (h : ¬legible) : Hinges legible (.error .undecodable)

namespace Hinges

variable {α β : Type} {P Q : Prop} {r : Except Fault α}

theorem congr (h : Hinges P r) (hPQ : P ↔ Q) : Hinges Q r := by
  cases h with
  | given h x => exact .given (hPQ.1 h) x
  | missing h => exact .missing (mt hPQ.2 h)

theorem isOk_iff (h : Hinges P r) : r.isOk = true ↔ P := by
  cases h with
  | given h x => exact iff_of_true rfl h
  | missing h => exact iff_of_false Bool.false_ne_true h

/-- An answer hinges on whether there is one, if nothing else can go wrong. -/
theorem of_isOk (h : Hinges P r) : Hinges (r.isOk = true) r := h.congr h.isOk_iff.symm

theorem map (h : Hinges P r) (f : α → β) : Hinges P (r.map f) := by
  cases h with
  | given h x => exact .given h (f x)
  | missing h => exact .missing h

theorem bind_pure (h : Hinges P r) (f : α → β) : Hinges P (r >>= fun x => pure (f x)) := by
  cases h with
  | given h x => exact .given h (f x)
  | missing h => exact .missing h

/-- A list is read when each of its items is. -/
theorem mapM {f : α → Except Fault β} {P : α → Prop} {xs : List α}
    (h : ∀ x ∈ xs, Hinges (P x) (f x)) : Hinges (∀ x ∈ xs, P x) (xs.mapM f) := by
  induction xs with
  | nil => exact .given (List.forall_mem_nil _) []
  | cons x xs ih =>
      obtain ⟨hx, hxs⟩ := List.forall_mem_cons.1 h
      have hrest := ih hxs
      rw [List.mapM_cons]
      generalize f x = r at hx
      cases hx with
      | missing hx => exact .missing fun hall => hx (hall x List.mem_cons_self)
      | given hx y =>
          exact (hrest.bind_pure (y :: ·)).congr
            ⟨fun hall => List.forall_mem_cons.2 ⟨hx, hall⟩, fun hall => (List.forall_mem_cons.1 hall).2⟩

end Hinges

/-! ## Proper changes -/

/-- Changes whose values a program can hold. -/
def Store.Change.Proper : Change → Prop
  | .ingest a => a.metadata.Proper
  | .record _ fields => Json.Proper (.object fields)
  | _ => True

/-! ## Ledgers -/

/-- Holds when no value that the ledger of a platform was given is nested too deep. -/
def LedgerLegible (L : List (Millis × Change)) (platform : String) : Prop :=
  ∀ p ∈ givenFields platform L, p.1 ∉ LedgerEntry.reserved → p.2.depth < Json.maxNesting

theorem ledgerLegible_append {L : List (Millis × Change)} {x : Millis × Change} {platform : String} :
    LedgerLegible (L ++ [x]) platform ↔ LedgerLegible L platform ∧ LedgerLegible [x] platform := by
  unfold LedgerLegible
  rw [givenFields_append]
  exact List.forall_mem_append

/-- What is set in a ledger lies no deeper than is read when neither what was there nor what is new
does. -/
theorem fieldsDepth_merge {old new : Fields} (hs : new.Sorted)
    (hold : ∀ p ∈ old, p.2.depth ≤ 126) :
    Json.fieldsDepth (LedgerEntry.merge old new) ≤ 126
      ↔ ∀ p ∈ new, p.1 ∉ LedgerEntry.reserved → p.2.depth < Json.maxNesting := by
  rw [Json.fieldsDepth_le_iff]
  constructor
  · intro h p hp hr
    -- a field that is not reserved is set
    have hget := LedgerEntry.get?_merge old hs p.1
    rw [if_neg hr, Fields.get?_of_mem hs hp] at hget
    exact Nat.lt_succ_of_le (h p (Fields.mem_of_get? hget))
  · intro h p hp
    rcases LedgerEntry.mem_merge hp with hp | ⟨hp, hr⟩
    · exact hold p hp
    · exact Nat.le_of_lt_succ (h p hp hr)

/-- What is read of a ledger that is kept as text: fields that can be read once more, or nothing. -/
inductive LedgerReading (legible : Prop) : Except Fault (Option LedgerEntry) → Prop
  | given (h : legible) {e : Option LedgerEntry}
      (hfields : ∀ p ∈ (e.map (·.fields)).getD [], p.2.Proper ∧ p.2.depth ≤ 126) :
      LedgerReading legible (.ok e)
  | missing (h : ¬legible) : LedgerReading legible (.error .undecodable)

theorem LedgerReading.congr {P Q : Prop} {r : Except Fault (Option LedgerEntry)}
    (h : LedgerReading P r) (hPQ : P ↔ Q) : LedgerReading Q r := by
  cases h with
  | given h hfields => exact .given (hPQ.1 h) hfields
  | missing h => exact .missing (mt hPQ.2 h)

/-- What is read after one more update of the platform. -/
theorem LedgerReading.record {legible : Prop} {k : LedgerRead} {platform : String}
    (h : LedgerReading legible (k platform)) (now : Millis) {fields : Fields}
    (hfields : Json.Proper (.object fields)) :
    LedgerReading
      (legible ∧ ∀ p ∈ fields, p.1 ∉ LedgerEntry.reserved → p.2.depth < Json.maxNesting)
      (ledgerReadEffect (Json.reread 126) now (.record platform fields) k platform) := by
  rw [ledgerReadEffect_record]
  generalize k platform = r at h
  cases h with
  | missing h => exact .missing fun hall => h hall.1
  | @given h e hold =>
      show LedgerReading _ (readEntry (Json.reread 126) platform now
        (LedgerEntry.merge ((e.map (·.fields)).getD []) fields))
      have hdepth := fieldsDepth_merge hfields.sorted fun p hp => (hold p hp).2
      have hproper : ∀ p ∈ LedgerEntry.merge ((e.map (·.fields)).getD []) fields,
          Json.Rereading 126 p.2 (Json.reread 126 p.2) := by
        intro p hp
        rcases LedgerEntry.mem_merge hp with hp | ⟨hp, -⟩
        · exact (hold p hp).1.reread_cases 126
        · exact (hfields.values p hp).reread_cases 126
      unfold readEntry
      obtain ⟨hd, read, hread, hvalues, hshallow⟩ | ⟨hd, hread⟩ :=
        Json.rereadFields_of_rereading hproper
      · rw [hread]
        exact .given ⟨h, hdepth.1 hd⟩ fun p hp =>
          ⟨hvalues p hp, Json.fieldsDepth_le_iff.1 hshallow p hp⟩
      · rw [hread]
        exact .missing fun hall => Nat.not_le.2 hd (hdepth.2 hall.2)

/-- What is read of a ledger after any updates. -/
theorem ledgerReading_replay {L : List (Millis × Change)} (hL : ∀ p ∈ L, p.2.Proper)
    (platform : String) :
    LedgerReading (LedgerLegible L platform)
      (replay (ledgerReadEffect (Json.reread 126)) L (fun _ => .ok none) platform) := by
  induction L using List.reverseRecOn with
  | nil => exact .given (List.forall_mem_nil _) (List.forall_mem_nil _)
  | append_singleton L x ih =>
      obtain ⟨now, c⟩ := x
      have hbefore := ih fun p hp => hL p (List.mem_append_left _ hp)
      have hc : c.Proper := hL (now, c) (List.mem_append_right _ List.mem_cons_self)
      rw [replay_append]
      generalize replay (ledgerReadEffect (Json.reread 126)) L (fun _ => .ok none) = k at hbefore
      show LedgerReading _ (ledgerReadEffect (Json.reread 126) now c k platform)
      -- what does not update the platform gives it nothing
      have hother (hgiven : givenFields platform [(now, c)] = [])
          (hk : ledgerReadEffect (Json.reread 126) now c k platform = k platform) :
          LedgerReading (LedgerLegible (L ++ [(now, c)]) platform)
            (ledgerReadEffect (Json.reread 126) now c k platform) := by
        rw [hk]
        refine hbefore.congr ?_
        unfold LedgerLegible
        rw [givenFields_append, hgiven, List.append_nil]
      cases c with
      | record q fields =>
          by_cases hq : q = platform
          · subst hq
            refine (hbefore.record now hc).congr ?_
            rw [ledgerLegible_append]
            unfold LedgerLegible
            simp [givenFields]
          · exact hother (by simp [givenFields, hq]) (if_neg fun heq => hq heq.symm)
      | _ => exact hother rfl rfl

/-- **Ledgers.** What is read of a ledger that is kept as text hinges on whether it is legible. -/
theorem hinges_readLedger {L : List (Millis × Change)} (hL : ∀ p ∈ L, p.2.Proper)
    (platform : String) :
    Hinges (LedgerLegible L platform)
      (replay (ledgerReadEffect (Json.reread 126)) L (fun _ => .ok none) platform) := by
  have hreading := ledgerReading_replay hL platform
  generalize replay (ledgerReadEffect (Json.reread 126)) L (fun _ => .ok none) platform = r at hreading
  cases hreading with
  | given h hfields => exact .given h _
  | missing h => exact .missing h

/-! ## Updates -/

namespace Database

variable {d : Database} {rows : List LedgerRow}

/-- The old fields are those that are read of the ledger. -/
theorem selectFields_eq_readLedger (h : d.ledger = some rows) (platform : String) :
    (selectFields platform d).1
      = (RelationalStore.readLedger rows platform).map fun e => (e.map (·.fields)).getD [] := by
  rw [selectFields_eq h]
  unfold RelationalStore.readLedger
  cases rows.find? fun r => decide (r.platform = platform) with
  | none => rfl
  | some row =>
      show row.decode.map LedgerEntry.fields = (row.decode.map some).map _
      cases row.decode <;> rfl

/-- An update is refused when the old fields cannot be read. -/
theorem record_eq_error {platform : String} {e : Fault}
    (hold : (selectFields platform d).1 = .error e) (now : Millis) (fields : Fields) :
    record now platform fields d = (.error e, d) := by
  have hselect : selectFields platform d = (.error e, d) := Prod.ext hold rfl
  simp only [record, transaction, andThen, hselect]

/-- An update is made when the ledger is read. -/
theorem record_fst (h : d.ledger = some rows) (now : Millis) (platform : String) (fields : Fields) :
    (record now platform fields d).1 = (RelationalStore.readLedger rows platform).map fun _ => () := by
  have hselect := selectFields_eq_readLedger h platform
  cases hread : RelationalStore.readLedger rows platform with
  | ok e =>
      rw [hread] at hselect
      rw [record_eq h hselect]
      rfl
  | error e =>
      rw [hread] at hselect
      rw [record_eq_error hselect]
      rfl

end Database

end ContentGraph
