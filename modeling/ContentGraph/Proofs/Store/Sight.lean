import ContentGraph.Proofs.Json.RereadFields
import ContentGraph.Proofs.Store.Ledger
import ContentGraph.Proofs.Store.Views

/-!
# What is read of a ledger

A store in memory gives the fields of a ledger back as they were set. A database keeps their text,
and gives back what is read of it, which need not be what was written: a number with a fraction may
come back as another one. The effect of a change on what is read is the same for both but for how
values come back (`ledgerReadEffect`); a `Sight` of a store shows its contents and what is read of
its ledger. Stores of both kinds have one, and so has a store that fails now and then
(`Sight.flaky`).
-/

namespace ContentGraph

open Store (Change Fault Backend)

/-- What is read of the ledger of each platform. -/
abbrev LedgerRead := String → Except Fault (Option LedgerEntry)

/-- What is read of fields that were written at a time, when values come back as `reread` tells. -/
def readEntry (reread : Json → Option Json) (platform : String) (now : Millis) (fields : Fields) :
    Except Fault (Option LedgerEntry) :=
  match Json.rereadFields reread fields with
  | some fields => .ok (some ⟨platform, fields, now⟩)
  | none => .error .undecodable

/-- The effect of a change on what is read of the ledger: fields are set over what was read. -/
def ledgerReadEffect (reread : Json → Option Json) (now : Millis) : Change → LedgerRead → LedgerRead
  | .record platform fields, k => fun p =>
    if p = platform then
      match k platform with
      | .ok old =>
        readEntry reread platform now (LedgerEntry.merge ((old.map (·.fields)).getD []) fields)
      | .error e => .error e
    else k p
  | _, k => k

theorem readEntry_eq_ok {reread : Json → Option Json} {platform : String} {now : Millis}
    {fields : Fields} {e : Option LedgerEntry} (h : readEntry reread platform now fields = .ok e) :
    ∃ read, Json.rereadFields reread fields = some read ∧ e = some ⟨platform, read, now⟩ := by
  unfold readEntry at h
  split at h
  · next read hread => exact ⟨read, hread, (Except.ok.inj h).symm⟩
  · exact nomatch h

/-- What is read of a ledger after fields were set in it. -/
theorem ledgerReadEffect_record (reread : Json → Option Json) (now : Millis) (platform : String)
    (fields : Fields) (k : LedgerRead) :
    ledgerReadEffect reread now (.record platform fields) k platform
      = match k platform with
        | .ok old =>
          readEntry reread platform now (LedgerEntry.merge ((old.map (·.fields)).getD []) fields)
        | .error e => .error e := if_pos rfl

theorem ledgerReadEffect_of_untouched (reread : Json → Option Json) (now : Millis) (c : Change)
    (k : LedgerRead) (h : c.touchesLedger = false) : ledgerReadEffect reread now c k = k := by
  cases c with
  | record => cases h
  | _ => rfl

/-- A ledger that cannot be read stays so. -/
theorem replay_of_unreadable {reread : Json → Option Json} {platform : String} {e : Fault}
    {k : LedgerRead} (h : k platform = .error e) (L : List (Millis × Change)) :
    replay (ledgerReadEffect reread) L k platform = .error e := by
  induction L generalizing k with
  | nil => exact h
  | cons q L ih =>
      obtain ⟨now, c⟩ := q
      refine ih (k := ledgerReadEffect reread now c k) ?_
      cases c with
      | record other fields =>
          show (if platform = other then _ else _) = _
          split
          · next heq => rw [← heq, h]
          · exact h
      | _ => exact h

/-- Fields stay sorted when others are set. -/
theorem LedgerEntry.sorted_merge {old : Fields} (h : old.Sorted) (new : Fields) :
    (merge old new).Sorted := by
  unfold merge
  induction new generalizing old with
  | nil => exact h
  | cons p new ih =>
      rw [List.foldl_cons]
      refine ih ?_
      split
      · exact h
      · exact Fields.sorted_insert h

/-- Views of the contents of a store and of what is read of its ledger. -/
structure Sight (σ : Type) [Backend σ] where
  contents : View σ Contents Contents.effect
  /-- What is read of a value in the ledger after it was written. -/
  reread : Json → Option Json
  texts : ∀ t, reread (.string t) = some (.string t)
  words : ∀ n : Int, Json.InWord n → reread (.number (.integer n)) = some (.number (.integer n))
  ledger : View σ LedgerRead (ledgerReadEffect reread)
  /-- What a store tells of a ledger is what is seen. -/
  answers : ∀ {platform s e}, (Backend.ledger? platform s).1 = .ok e → ledger.seen s platform = .ok e
  /-- Only a ledger that can be read is written over. -/
  readable : ∀ {now platform fields s s'},
    Backend.change now (.record platform fields) s = (.ok (), s') →
      ∃ e, ledger.seen s platform = .ok e

namespace Sight

variable {σ : Type} [Backend σ] (sight : Sight σ)

def assets : View σ AssetsSeen assetEffect where
  seen s := (sight.contents.seen s).assets
  made h := congrArg Contents.assets (sight.contents.made h)
  failed h := congrArg Contents.assets (sight.contents.failed h)

def edges : View σ (List Edge) edgeEffect where
  seen s := (sight.contents.seen s).edges
  made h := congrArg Contents.edges (sight.contents.made h)
  failed h := congrArg Contents.edges (sight.contents.failed h)

def errors : View σ (List LoggedError) errorEffect where
  seen s := (sight.contents.seen s).errors
  made h := congrArg Contents.errors (sight.contents.made h)
  failed h := congrArg Contents.errors (sight.contents.failed h)

/-- Of a store that fails now and then, what is seen is the store behind. -/
def flaky : Sight (Flaky σ) where
  contents := sight.contents.flaky
  reread := sight.reread
  texts := sight.texts
  words := sight.words
  ledger := sight.ledger.flaky
  answers h := sight.answers h
  readable h := by
    obtain ⟨⟨e, he⟩, -⟩ | hbehind := Flaky.change_cases h
    · exact nomatch he
    · exact sight.readable hbehind

end Sight

/-! ## Stores in memory -/

namespace MemoryStore

/-- What is read of the ledger is what was written. -/
def ledgerReadView : View MemoryStore LedgerRead (ledgerReadEffect some) where
  seen m platform := .ok (m.entry? platform)
  made {now c s _} h := by
    obtain rfl := (Prod.mk.inj h).2
    funext p
    cases c with
    | record platform fields =>
        show Except.ok (MemoryStore.entry? p (s.record now platform fields))
          = if p = platform then _ else _
        rw [entry?_record]
        split
        · show _ = readEntry some platform now _
          unfold readEntry
          rw [Json.rereadFields_eq_self fun _ _ => rfl]
        · rfl
    | relate e =>
        show Except.ok (MemoryStore.entry? p (s.relate e)) = _
        rw [relate_eq]
        rfl
    | _ => rfl
  failed h := nomatch (Prod.mk.inj h).1

/-- The sight of a store in memory. -/
def sight : Sight MemoryStore where
  contents := contentsView
  reread := some
  texts _ := rfl
  words _ _ := rfl
  ledger := ledgerReadView
  answers h := h
  readable _ := ⟨_, rfl⟩

end MemoryStore

/-! ## Stores in databases -/

namespace RelationalStore

/-- What is read of the rows of a ledger. -/
def readLedger (rows : List LedgerRow) : LedgerRead := fun p =>
  match rows.find? (·.platform = p) with
  | some row => row.decode.map some
  | none => .ok none

/-- What is read of a row is what is read of the text of its fields. -/
theorem decode_row {fields : Fields} (hs : fields.Sorted) (platform : String) (now : Millis)
    (revision : Nat) :
    (LedgerRow.decode ⟨platform, (Json.object fields).render, now, revision⟩).map some
      = readEntry (Json.reread 126) platform now fields := by
  unfold LedgerRow.decode LedgerRow.fields? readEntry
  rw [Json.parse?_render_sorted hs]
  cases Json.rereadFields (Json.reread 126) fields <;> rfl

/-- What is read of the rows when a platform's row is written. -/
theorem readLedger_upsert (rows : List LedgerRow) {fields : Fields} (hs : fields.Sorted)
    (platform : String) (now : Millis) (revision : Nat) (p : String) :
    readLedger (rows.filter (·.platform ≠ platform)
        ++ [⟨platform, (Json.object fields).render, now, revision⟩]) p
      = if p = platform then readEntry (Json.reread 126) platform now fields
        else readLedger rows p := by
  have hfind := find?_put (fun r : LedgerRow => r.platform) rows
    (x := ⟨platform, (Json.object fields).render, now, revision⟩) (k := platform) rfl p
  unfold readLedger
  rw [hfind]
  by_cases hp : p = platform
  · rw [if_pos hp, if_pos hp]
    exact decode_row hs platform now revision
  · rw [if_neg hp, if_neg hp]

/-- What is read of a row is sorted. -/
theorem sorted_of_decode {row : LedgerRow} {e : LedgerEntry} (h : row.decode = .ok e) :
    e.fields.Sorted := by
  unfold LedgerRow.decode LedgerRow.fields? at h
  split at h
  · next fields hfields =>
      split at hfields
      · next hparse =>
          obtain rfl := Option.some.inj hfields
          obtain rfl := Except.ok.inj h
          exact Json.sorted_of_parse? hparse
      · exact nomatch hfields
  · exact nomatch h

/-- The old fields that recording finds are those that are read, and they are sorted. -/
theorem readLedger_of_selectFields {d : Database} {rows : List LedgerRow} {platform : String}
    {old : Fields} (hrows : d.ledger = some rows)
    (hold : (Database.selectFields platform d).1 = .ok old) :
    old.Sorted ∧ ∃ e, readLedger rows platform = .ok e ∧ (e.map (·.fields)).getD [] = old := by
  rw [Database.selectFields_eq hrows] at hold
  unfold readLedger
  cases hfind : rows.find? (·.platform = platform) with
  | none =>
      rw [hfind] at hold
      obtain rfl := Except.ok.inj hold
      exact ⟨List.Pairwise.nil, none, rfl, rfl⟩
  | some row =>
      rw [hfind] at hold
      change row.decode.map LedgerEntry.fields = .ok old at hold
      cases hdecode : row.decode with
      | error e =>
          rw [hdecode] at hold
          exact nomatch hold
      | ok e =>
          rw [hdecode] at hold
          obtain rfl := Except.ok.inj hold
          exact ⟨sorted_of_decode hdecode, some e, congrArg (Except.map some) hdecode, rfl⟩

/-- A change that a database makes affects what is read of the ledger. -/
theorem readLedger_of_change {now : Millis} {c : Change} {d d' : Database}
    (h : Database.change now c d = (.ok (), d')) :
    readLedger (d'.ledger.getD [])
      = ledgerReadEffect (Json.reread 126) now c (readLedger (d.ledger.getD [])) := by
  cases c with
  | record platform fields =>
      obtain ⟨rows, old, hrows, hold, rfl⟩ := Database.record_ok h
      obtain ⟨hsorted, e, he, rfl⟩ := readLedger_of_selectFields hrows hold
      funext p
      rw [hrows]
      show readLedger (rows.filter _ ++ [_]) p = if p = platform then _ else _
      rw [readLedger_upsert rows (LedgerEntry.sorted_merge hsorted fields)]
      show _ = if p = platform then (match readLedger rows platform with
        | .ok old => _
        | .error e => _) else _
      rw [he]
      rfl
  | _ =>
      have hsame : d'.ledger = d.ledger := by
        cases Database.makes_of_change h
        rfl
      rw [hsame]
      rfl

/-- What a database tells of a ledger is what is read of its rows. -/
theorem readLedger_of_ledger? {d : Database} {platform : String} {e : Option LedgerEntry}
    (h : d.ledger? platform = .ok e) : readLedger (d.ledger.getD []) platform = .ok e := by
  cases hrows : d.ledger with
  | none =>
      unfold Database.ledger? at h
      rw [hrows] at h
      exact nomatch h
  | some rows =>
      show (match rows.find? (·.platform = platform) with
        | some row => row.decode.map some
        | none => Except.ok none) = .ok e
      cases hfind : rows.find? (·.platform = platform) with
      | none =>
          rw [Database.ledger?_of_none hrows hfind] at h
          exact h
      | some row =>
          rw [Database.ledger?_of_some hrows hfind] at h
          exact h

def ledgerReadView : View RelationalStore LedgerRead (ledgerReadEffect (Json.reread 126)) :=
  viewOf (fun d => readLedger (d.ledger.getD [])) (fun _ => rfl) readLedger_of_change

/-- The sight of a store in a database. -/
def sight : Sight RelationalStore where
  contents := contentsView
  reread := Json.reread 126
  texts _ := rfl
  words n hn := by
    show (Json.rereadNumber (.integer n)).map Json.number = _
    rw [Json.rereadNumber_integer hn]
    rfl
  ledger := ledgerReadView
  answers {platform s e} h := by
    change (s.query (Database.ledger? platform)).1 = .ok e at h
    unfold query at h
    have hdatabase := s.prepare_database
    rcases hprepare : s.prepare with ⟨_ | _, s₁⟩
    · rw [hprepare] at h
      exact nomatch h
    · rw [hprepare] at h hdatabase
      have hread := readLedger_of_ledger? h
      show readLedger (s.database.ledger.getD []) platform = .ok e
      obtain heq | heq := hdatabase
      · rwa [heq] at hread
      · rwa [heq] at hread
  readable {now platform fields s s'} h := by
    obtain ⟨d, hd, ⟨e, he, -⟩ | hchange⟩ := change_eq h
    · exact nomatch he
    · obtain ⟨rows, old, hrows, hold, -⟩ := Database.record_ok hchange
      obtain ⟨-, e, he, -⟩ := readLedger_of_selectFields hrows hold
      refine ⟨e, ?_⟩
      show readLedger (s.database.ledger.getD []) platform = .ok e
      have hledger : s.database.ledger.getD [] = rows := by
        obtain rfl | rfl := hd
        · rw [hrows]
          rfl
        · exact Option.some.inj hrows
      rw [hledger, he]

end RelationalStore

end ContentGraph
