import ContentGraph.Proofs.Json.RoundTrip
import ContentGraph.Proofs.Store.Legible
import Mathlib.Logic.Relation

/-!
# What stores tell of ledgers

What is told of the ledger of a platform depends on its updates only: when the last one was, and
which value each of them gave last under a key (`LedgerTold`). A store in memory tells these values
(`MemoryStore.ledgerTold_behind`). A database writes all fields anew with every update and reads them
back, so it tells what has become of the values on the way (`RelationalStore.ledgerTold_behind`).
-/

namespace ContentGraph

open Relation (TransGen)
open Store (Backend Change Event Fault)

/-! ## Updates -/

/-- The time of the last update of a platform's ledger. -/
def lastUpdate? (platform : String) (L : List (Millis × Change)) : Option Millis :=
  ((updatedPlatforms L).find? fun p => decide (p.2 = platform)).map (·.1)

/-- The value that a ledger keeps under a key: the one given last, unless the key is reserved. -/
def keptField? (platform key : String) (L : List (Millis × Change)) : Option Json :=
  if key ∈ LedgerEntry.reserved then none else lastGiven? platform key L

/-- What is told of the ledger of a platform, where `same` tells how a value is told. -/
inductive LedgerTold (same : Json → Json → Prop) (L : List (Millis × Change)) (platform : String) :
    Option LedgerEntry → Prop
  | unrun (h : lastUpdate? platform L = none) : LedgerTold same L platform none
  | run {now : Millis} (h : lastUpdate? platform L = some now) {fields : Fields} (hs : fields.Sorted)
      (hkept : ∀ key, Option.Rel same (keptField? platform key L) (fields.get? key)) :
      LedgerTold same L platform (some ⟨platform, fields, now⟩)

section Updates

variable {L : List (Millis × Change)} {platform : String}

/-- A platform that was never updated keeps nothing. -/
theorem keptField?_of_unrun (h : lastUpdate? platform L = none) (key : String) :
    keptField? platform key L = none := by
  have hgiven : givenFields platform L = [] := by
    refine givenFields_eq_nil fun p hp hplatform => ?_
    exact List.find?_eq_none.1 (Option.map_eq_none_iff.1 h) p hp (decide_eq_true hplatform)
  unfold keptField? lastGiven?
  rw [hgiven]
  exact ite_self _

theorem keptField?_of_reserved {key : String} (h : key ∈ LedgerEntry.reserved) :
    keptField? platform key L = none := if_pos h

theorem lastUpdate?_append (now : Millis) (c : Change) :
    lastUpdate? platform (L ++ [(now, c)]) =
      match c with
      | .record q _ => if platform = q then some now else lastUpdate? platform L
      | _ => lastUpdate? platform L := by
  unfold lastUpdate?
  rw [updatedPlatforms_append]
  cases c with
  | record q fields =>
      have hput := find?_put (fun p : Millis × String => p.2) (updatedPlatforms L) (x := (now, q))
        (k := q) rfl platform
      show (List.find? _ (_ ++ [(now, q)])).map _ = if platform = q then some now else _
      rw [hput, apply_ite (Option.map _)]
      rfl
  | _ => rfl

theorem lastGiven?_append (key : String) (x : Millis × Change) :
    lastGiven? platform key (L ++ [x]) = (lastGiven? platform key [x]).or (lastGiven? platform key L) := by
  unfold lastGiven? lastWith
  rw [givenFields_append, List.filter_append, List.getLast?_append]
  cases ((givenFields platform [x]).filter fun p => decide (p.1 = key)).getLast? <;> rfl

/-- An update gives each of its fields. -/
theorem lastGiven?_record {fields : Fields} (hs : fields.Sorted) (now : Millis) (key : String) :
    lastGiven? platform key [(now, .record platform fields)] = fields.get? key := by
  have hgiven : givenFields platform [(now, .record platform fields)] = fields := by
    simp [givenFields]
  unfold lastGiven?
  rw [hgiven, ← Fields.get?_ofList, Fields.ofList_of_sorted hs]

/-- What gives a platform nothing leaves what it keeps. -/
theorem keptField?_append_of_untold {x : Millis × Change} (h : givenFields platform [x] = [])
    (key : String) : keptField? platform key (L ++ [x]) = keptField? platform key L := by
  unfold keptField? lastGiven?
  rw [givenFields_append, h, List.append_nil]

/-- The fields of a ledger that is told are what is kept. -/
theorem LedgerTold.fields {same : Json → Json → Prop} {e : Option LedgerEntry}
    (h : LedgerTold same L platform e) :
    let fields : Fields := (e.map (·.fields)).getD []
    fields.Sorted ∧ ∀ key, Option.Rel same (keptField? platform key L) (fields.get? key) := by
  cases h with
  | unrun h =>
      refine ⟨.nil, fun key => ?_⟩
      rw [keptField?_of_unrun h]
      exact .none
  | run h hs hkept => exact ⟨hs, hkept⟩

end Updates

/-! ## Stores in memory -/

/-- Behind a history a store in memory tells the values that were given last. -/
theorem MemoryStore.ledgerTold_behind (events : List Event) (platform : String) :
    ∃ e, (Backend.ledger? platform (Store.memoryBehind events)).1 = .ok e
      ∧ LedgerTold Eq (Store.memoryAccepted events) platform e := by
  refine ⟨_, rfl, ?_⟩
  have hlaw := (recalls_behind events).ledger_eq platform
  cases hlast : (updatedPlatforms (Store.memoryAccepted events)).find?
      fun p => decide (p.2 = platform) with
  | none =>
      rw [hlast] at hlaw
      rw [hlaw]
      exact .unrun (Option.map_eq_none_iff.2 hlast)
  | some p =>
      rw [hlast] at hlaw
      obtain ⟨fields, hentry, hs, hkept⟩ := hlaw
      rw [hentry]
      refine .run (Option.map_eq_some_iff.2 ⟨p, hlast, rfl⟩) hs fun key => ?_
      rw [hkept key]
      show Option.Rel Eq (keptField? _ _ _) (keptField? _ _ _)
      cases keptField? platform key (Store.memoryAccepted events) with
      | none => exact .none
      | some v => exact .some rfl

/-! ## Databases -/

/-- What may have become of a value that is written and read back once or more often. -/
def Rereads : Json → Json → Prop := TransGen fun v w => Json.reread 126 v = some w

/-- A value that fits stays what it is. -/
theorem Rereads.eq_of_fits {v w : Json} (hv : Json.Fits 126 v) (h : Rereads v w) : w = v := by
  induction h with
  | single h => exact Option.some.inj (h.symm.trans hv.reread)
  | tail _ h ih =>
      subst ih
      exact Option.some.inj (h.symm.trans hv.reread)

/-- A text is read from nothing but its own. -/
theorem string_of_reread {v : Json} {s : String} (h : Json.reread 126 v = some (.string s)) :
    v = .string s := by
  cases v with
  | string t => exact Option.some.inj h
  | null => exact nomatch h
  | bool b => exact nomatch h
  | number n =>
      obtain ⟨_, -, hv⟩ := Option.map_eq_some_iff.1 h
      exact nomatch hv
  | array items =>
      obtain ⟨_, -, hv⟩ := Option.map_eq_some_iff.1 h
      exact nomatch hv
  | object fields =>
      obtain ⟨_, -, hv⟩ := Option.map_eq_some_iff.1 h
      exact nomatch hv

/-- Texts are told as they are, and nothing else is told as a text. -/
theorem Rereads.string_iff {v w : Json} (h : Rereads v w) (s : String) :
    v = .string s ↔ w = .string s := by
  constructor
  · rintro rfl
    exact h.eq_of_fits (.string s)
  · rintro rfl
    induction h using TransGen.head_induction_on with
    | single h => exact string_of_reread h
    | head h _ ih => exact string_of_reread (ih ▸ h)

/-- An update writes the fields that were read with the new ones over them, and all are read again. -/
theorem LedgerTold.record {L : List (Millis × Change)} {platform : String} {e e' : Option LedgerEntry}
    (h : LedgerTold Rereads L platform e) {fields : Fields} (hs : fields.Sorted) {now : Millis}
    (hread : readEntry (Json.reread 126) platform now
      (LedgerEntry.merge ((e.map (·.fields)).getD []) fields) = .ok e') :
    LedgerTold Rereads (L ++ [(now, .record platform fields)]) platform e' := by
  obtain ⟨hsorted, hkept⟩ := h.fields
  generalize (e.map (·.fields)).getD [] = old at hsorted hkept hread
  obtain ⟨read, hfields, rfl⟩ := readEntry_eq_ok hread
  have hlast : lastUpdate? platform (L ++ [(now, .record platform fields)]) = some now := by
    rw [lastUpdate?_append]
    exact if_pos rfl
  refine .run hlast (Json.sorted_rereadFields hfields (LedgerEntry.sorted_merge hsorted fields)) ?_
  intro key
  have hold := hkept key
  rw [Json.get?_rereadFields hfields, LedgerEntry.get?_merge old hs]
  by_cases hkey : key ∈ LedgerEntry.reserved
  · -- a reserved key never had a value
    rw [keptField?_of_reserved hkey] at hold ⊢
    rw [if_pos hkey]
    generalize Fields.get? key old = o at hold
    cases hold
    exact .none
  · have hgiven : keptField? platform key (L ++ [(now, .record platform fields)])
        = (fields.get? key).or (keptField? platform key L) := by
      unfold keptField?
      rw [if_neg hkey, if_neg hkey, lastGiven?_append, lastGiven?_record hs]
    have hreads : ∀ v, (LedgerEntry.merge old fields).get? key = some v →
        ∃ w, Json.reread 126 v = some w := fun v hv =>
      Option.isSome_iff_exists.1 (Json.isSome_of_rereadFields hfields (Fields.mem_of_get? hv))
    rw [LedgerEntry.get?_merge old hs, if_neg hkey] at hreads
    rw [hgiven, if_neg hkey]
    cases hnew : fields.get? key with
    | some v =>
        obtain ⟨w, hw⟩ := hreads v (by rw [hnew]; rfl)
        show Option.Rel _ (some v) (Json.reread 126 v)
        rw [hw]
        exact .some (.single hw)
    | none =>
        rw [hnew, Option.none_or] at hreads
        show Option.Rel _ (keptField? platform key L) ((Fields.get? key old).bind _)
        generalize Fields.get? key old = o at hold hreads
        generalize keptField? platform key L = kept at hold
        cases hold with
        | none => exact .none
        | @some v u hvu =>
            obtain ⟨w, hw⟩ := hreads u rfl
            show Option.Rel _ (some v) (Json.reread 126 u)
            rw [hw]
            exact .some (hvu.tail hw)

/-- What does not update a ledger leaves what is told of it. -/
theorem LedgerTold.untouched {same : Json → Json → Prop} {L : List (Millis × Change)} {platform : String}
    {e : Option LedgerEntry} (h : LedgerTold same L platform e) {x : Millis × Change}
    (hlast : lastUpdate? platform (L ++ [x]) = lastUpdate? platform L)
    (hgiven : givenFields platform [x] = []) : LedgerTold same (L ++ [x]) platform e := by
  cases h with
  | unrun h => exact .unrun (hlast.trans h)
  | run h hs hkept =>
      refine .run (hlast.trans h) hs fun key => ?_
      rw [keptField?_append_of_untold hgiven]
      exact hkept key

/-- What is read of a ledger after changes of proper values. -/
theorem ledgerTold_replay {L : List (Millis × Change)} (hL : ∀ p ∈ L, p.2.Proper) {platform : String}
    {e : Option LedgerEntry}
    (h : replay (ledgerReadEffect (Json.reread 126)) L (fun _ => .ok none) platform = .ok e) :
    LedgerTold Rereads L platform e := by
  induction L using List.reverseRecOn generalizing e with
  | nil =>
      obtain rfl := Except.ok.inj h
      exact .unrun rfl
  | append_singleton L x ih =>
      obtain ⟨now, c⟩ := x
      have hbefore {e} := ih (fun p hp => hL p (List.mem_append_left _ hp)) (e := e)
      have hc : c.Proper := hL (now, c) (List.mem_append_right _ List.mem_cons_self)
      rw [replay_append] at h
      generalize replay (ledgerReadEffect (Json.reread 126)) L (fun _ => .ok none) = k at hbefore h
      change ledgerReadEffect (Json.reread 126) now c k platform = .ok e at h
      cases c with
      | record q fields =>
          by_cases hq : platform = q
          · subst hq
            rw [ledgerReadEffect_record] at h
            cases hk : k platform with
            | error _ =>
                rw [hk] at h
                exact nomatch h
            | ok old =>
                rw [hk] at h
                exact (hbefore hk).record hc.sorted h
          · have hk : k platform = .ok e := (if_neg hq).symm.trans h
            refine (hbefore hk).untouched ?_ (by simp [givenFields, Ne.symm hq])
            rw [lastUpdate?_append]
            exact if_neg hq
      | _ => exact (hbefore h).untouched (lastUpdate?_append _ _) rfl

/-- Behind a history a database tells a ledger that is legible, and of others that it cannot be read. -/
theorem RelationalStore.ledgerTold_behind {events : List Event} (h : ∀ event ∈ events, event.Proper)
    (platform : String) :
    (LedgerLegible (Store.relationalAccepted events) platform →
        ∃ e, (Backend.ledger? platform (Store.relationalBehind events)).1 = .ok e
          ∧ LedgerTold Rereads (Store.relationalAccepted events) platform e)
      ∧ (¬LedgerLegible (Store.relationalAccepted events) platform →
        (Backend.ledger? platform (Store.relationalBehind events)).1 = .error .undecodable) := by
  have hproper : ∀ p ∈ Store.relationalAccepted events, p.2.Proper := Store.proper_of_accepted h
  have hholds := holds_behind events
  have hanswer : (Backend.ledger? platform (Store.relationalBehind events)).1
      = replay (ledgerReadEffect (Json.reread 126)) (Store.relationalAccepted events)
        (fun _ => .ok none) platform := by
    show ((Store.relationalBehind events).query (Database.ledger? platform)).1 = _
    rw [hholds.query_eq]
    exact hholds.database.ledger?_eq platform
  have hhinges := hinges_readLedger hproper platform
  have htold {e} := @ledgerTold_replay _ hproper platform e
  rw [hanswer]
  generalize replay (ledgerReadEffect (Json.reread 126)) (Store.relationalAccepted events)
    (fun _ => .ok none) platform = r at hhinges htold
  cases hhinges with
  | given hlegible e => exact ⟨fun _ => ⟨e, rfl, htold rfl⟩, fun h => absurd hlegible h⟩
  | missing hillegible => exact ⟨fun h => absurd h hillegible, fun _ => rfl⟩

end ContentGraph
