import ContentGraph.Proofs.Store.Statement
import ContentGraph.Proofs.Store.View
import ContentGraph.Store.Relational

/-!
# The views of both kinds of store

Stores in memory and in databases have views of their assets, their edges and their log. A
database may lack tables: those are like empty ones until they are made.
-/

namespace ContentGraph

open Store (Change Fault Backend)

/-! ## Lists with a key -/

section Keyed

variable {α : Type} (key : α → String)

/-- What is under a key, after what is under another has been taken away. -/
theorem find?_filter_key (xs : List α) (k k' : String) :
    (xs.filter fun x => decide (key x ≠ k)).find? (fun x => decide (key x = k'))
      = if k' = k then none else xs.find? fun x => decide (key x = k') := by
  rw [List.find?_filter]
  by_cases hk : k' = k
  · rw [if_pos hk, List.find?_eq_none]
    intro x _ hx
    simp only [decide_eq_true_eq] at hx
    exact hx.1 (hx.2.trans hk)
  · rw [if_neg hk]
    congr 1
    funext x
    simp only [decide_eq_true_eq, decide_eq_decide]
    exact ⟨And.right, fun hx => ⟨fun h => hk (hx.symm.trans h), hx⟩⟩

/-- What is under a key, after something has been put in the place of what had the same key. -/
theorem find?_put (xs : List α) {x : α} {k : String} (hx : key x = k) (k' : String) :
    (xs.filter (fun y => decide (key y ≠ k)) ++ [x]).find? (fun y => decide (key y = k'))
      = if k' = k then some x else xs.find? fun y => decide (key y = k') := by
  rw [List.find?_append, find?_filter_key, List.find?_singleton, hx]
  by_cases hk : k' = k
  · rw [if_pos hk, if_pos hk, if_pos (decide_eq_true hk.symm)]
    rfl
  · rw [if_neg hk, if_neg hk, if_neg fun h => hk (of_decide_eq_true h).symm, Option.or_none]

end Keyed

/-! ## Stores in memory -/

namespace MemoryStore

/-- What is read of what was found. -/
private def readFound : Option StoredAsset → Except Fault (Option Asset)
  | some s => s.decode.map some
  | none => .ok none

theorem asset?_eq (id : String) (m : MemoryStore) :
    m.asset? id = readFound (m.assets.find? (·.asset.id = id)) := by
  unfold asset? readFound
  rfl

theorem asset?_ingest (now : Millis) (a : Asset) (m : MemoryStore) (id : String) :
    (m.ingest now a).asset? id = if id = a.id then (a.readBack now).map some else m.asset? id := by
  have hfind := find?_put (fun s : StoredAsset => s.asset.id) m.assets
    (x := .ofAsset now (m.revision + 1) a) (k := a.id) rfl id
  rw [asset?_eq, asset?_eq]
  show readFound (List.find? _ (m.assets.filter _ ++ [_])) = _
  rw [hfind, apply_ite readFound]
  rfl

theorem asset?_remove (removed : String) (m : MemoryStore) (id : String) :
    (m.remove removed).asset? id = if id = removed then .ok none else m.asset? id := by
  rw [asset?_eq, asset?_eq]
  show readFound (List.find? _ (m.assets.filter _)) = _
  rw [find?_filter_key (fun s : StoredAsset => s.asset.id), apply_ite readFound]
  rfl

theorem entry?_record (now : Millis) (platform : String) (fields : Fields) (m : MemoryStore)
    (p : String) :
    MemoryStore.entry? p (m.record now platform fields)
      = if p = platform then
          some ⟨platform, LedgerEntry.merge (((m.entry? platform).map (·.fields)).getD []) fields,
            now⟩
        else m.entry? p := by
  have hfind := find?_put (fun s : StoredEntry => s.entry.platform) m.ledger
    (x := ⟨⟨platform, LedgerEntry.merge (((m.entry? platform).map (·.fields)).getD []) fields,
      now⟩, m.revision + 1⟩) rfl p
  show (List.find? _ (m.ledger.filter _ ++ [_])).map (·.entry) = _
  rw [hfind, apply_ite (Option.map _)]
  rfl

def assetView : View MemoryStore AssetsSeen assetEffect where
  seen m id := m.asset? id
  made {now c s _} h := by
    obtain rfl := (Prod.mk.inj h).2
    funext id
    cases c with
    | ingest a => exact asset?_ingest now a s id
    | remove i => exact asset?_remove i s id
    | relate e =>
        show (s.relate e).asset? id = _
        rw [relate_eq]
        rfl
    | record _ _ => rfl
    | clear _ _ => rfl
    | logError _ _ => rfl
  failed h := nomatch (Prod.mk.inj h).1

def edgeView : View MemoryStore (List Edge) edgeEffect where
  seen m := m.edges
  made {_ c s _} h := by
    obtain rfl := (Prod.mk.inj h).2
    cases c with
    | relate e =>
        show (s.relate e).edges = _
        rw [relate_eq]
        rfl
    | _ => rfl
  failed h := nomatch (Prod.mk.inj h).1

def errorView : View MemoryStore (List LoggedError) errorEffect where
  seen m := m.errors
  made {_ c s _} h := by
    obtain rfl := (Prod.mk.inj h).2
    cases c with
    | relate e =>
        show (s.relate e).errors = _
        rw [relate_eq]
        rfl
    | _ => rfl
  failed h := nomatch (Prod.mk.inj h).1

/-- The edges of a store in memory. -/
def edgePart : Part MemoryStore (List Edge) Change.touchesEdges :=
  edgeView.part edgeEffect_of_untouched

/-- The ledger of a store in memory. -/
def ledgerPart : Part MemoryStore (List StoredEntry) Change.touchesLedger where
  seen m := m.ledger
  kept {now c s _ _} h hc := by
    obtain rfl := (Prod.mk.inj h).2
    cases c with
    | record => exact nomatch hc
    | relate e =>
        show (s.relate e).ledger = _
        rw [relate_eq]
    | _ => rfl

/-- A store in memory fails no change. -/
theorem noFault {α : Type} (source : Extractor) (tree : FileTree) (r : Routine α)
    (time : Nat → Millis) (m : MemoryStore) : (r.transcript source tree time m).NoFault := by
  induction r generalizing time m with
  | done x => exact fun _ _ _ h => absurd h List.not_mem_nil
  | clock next ih => exact (ih _ _ _).cons nofun
  | discover next ih => exact (ih _ _ _).cons nofun
  | extract file next ih => exact (ih _ _ _).cons nofun
  | change c next ih => exact (ih _ _ _).cons nofun

/-- The contents of a store in memory. -/
def contentsView : View MemoryStore Contents Contents.effect :=
  .contents assetView edgeView errorView

end MemoryStore

/-! ## Stores in databases -/

namespace RelationalStore

/-- Preparing makes at most the missing tables. -/
theorem prepare_database (s : RelationalStore) :
    s.prepare.2.database = s.database ∨ s.prepare.2.database = s.database.createTables := by
  obtain ⟨database, obstacle, isOpen, hasSchema⟩ := s
  unfold prepare connect
  cases isOpen <;> cases obstacle <;> cases hasSchema <;> simp

/-- A change of the store is one of its database, with some tables made before, or fails before
the database is reached. -/
theorem change_eq {now : Millis} {c : Change} {s s' : RelationalStore} {r : Except Fault Unit}
    (h : Backend.change now c s = (r, s')) :
    ∃ d, (d = s.database ∨ d = s.database.createTables)
      ∧ ((∃ e, r = .error e ∧ s'.database = d) ∨ Database.change now c d = (r, s'.database)) := by
  refine ⟨s.prepare.2.database, s.prepare_database, ?_⟩
  change s.execute (Database.change now c) = _ at h
  unfold execute at h
  rcases hprepare : s.prepare with ⟨e | _, s₁⟩
  · -- no connection: the statement does not run
    rw [hprepare] at h
    obtain ⟨rfl, rfl⟩ := Prod.mk.inj h
    exact .inl ⟨e, rfl, rfl⟩
  · rw [hprepare] at h
    obtain ⟨rfl, rfl⟩ := Prod.mk.inj h
    exact .inr rfl

/-- A view of databases in which missing tables are like empty ones is one of stores. -/
def viewOf {κ : Type} {effect : Millis → Change → κ → κ} (seen : Database → κ)
    (created : ∀ d, seen d.createTables = seen d)
    (made : ∀ {now c d d'}, Database.change now c d = (.ok (), d') →
      seen d' = effect now c (seen d)) : View RelationalStore κ effect where
  seen s := seen s.database
  made h := by
    obtain ⟨d, hd, ⟨e, he, -⟩ | hchange⟩ := change_eq h
    · exact nomatch he
    · rw [made hchange]
      obtain rfl | rfl := hd
      · rfl
      · rw [created]
  failed h := by
    obtain ⟨d, hd, ⟨e, -, hs⟩ | hchange⟩ := change_eq h
    · rw [hs]
      obtain rfl | rfl := hd
      · rfl
      · exact created _
    · rw [Database.change_error hchange]
      obtain rfl | rfl := hd
      · rfl
      · exact created _

/-- What is read of the row that was found. -/
private def readRow : Option AssetRow → Except Fault (Option Asset)
  | some row => row.decode.map some
  | none => .ok none

/-- What is read of the rows of a table under each id. -/
private def readRows (rows : List AssetRow) : AssetsSeen := fun id =>
  readRow (rows.find? (·.id = id))

theorem decode_ofAsset (now : Millis) (revision : Nat) (a : Asset) :
    (AssetRow.ofAsset now revision a).decode = a.readBack now := by
  have htype : (AssetRow.ofAsset now revision a).shownType = a.type := by
    unfold AssetRow.shownType
    show (AssetType.ofName? a.type.name).getD _ = a.type
    rw [AssetType.ofName?_name]
    rfl
  unfold AssetRow.decode Asset.readBack StoredAsset.decode
  rw [htype]
  rfl

/-- Ingesting puts what is read back in the place of what was read. -/
private theorem readRows_ingest (now : Millis) (revision : Nat) (a : Asset)
    (rows : List AssetRow) :
    readRows (rows.filter (·.id ≠ a.id) ++ [.ofAsset now revision a])
      = assetEffect now (.ingest a) (readRows rows) := by
  funext id
  unfold readRows
  rw [find?_put (fun r : AssetRow => r.id) rows (x := .ofAsset now revision a) (k := a.id) rfl id,
    apply_ite readRow]
  show (if id = a.id then (AssetRow.ofAsset now revision a).decode.map some else _) = _
  rw [decode_ofAsset]
  rfl

private theorem readRows_remove (now : Millis) (removed : String) (rows : List AssetRow) :
    readRows (rows.filter (·.id ≠ removed)) = assetEffect now (.remove removed) (readRows rows) := by
  funext id
  unfold readRows
  rw [find?_filter_key (fun r : AssetRow => r.id), apply_ite readRow]
  rfl

/-- What a change that is made has for effect on the tables, a missing one being like an empty
one. -/
structure Affects (now : Millis) (c : Change) (d d' : Database) : Prop where
  assets : readRows (d'.assets.getD []) = assetEffect now c (readRows (d.assets.getD []))
  edges : d'.edges.getD [] = edgeEffect now c (d.edges.getD [])
  errors : d'.errors.getD [] = errorEffect now c (d.errors.getD [])

/-- A change that a database makes affects its tables. -/
private theorem affects_of_change {now : Millis} {c : Change} {d d' : Database}
    (h : Database.change now c d = (.ok (), d')) : Affects now c d d' := by
  cases Database.makes_of_change h with
  | @ingest a rows hrows =>
      refine ⟨?_, rfl, rfl⟩
      rw [hrows]
      exact readRows_ingest now _ a rows
  | @remove id rows edges hrows hedges =>
      -- the only change of two tables
      refine ⟨?_, ?_, rfl⟩
      · rw [hrows]
        exact readRows_remove now id rows
      · rw [hedges]
        rfl
  | record => exact ⟨rfl, rfl, rfl⟩
  | relate hedges =>
      refine ⟨rfl, ?_, rfl⟩
      rw [hedges]
      rfl
  | clear hedges =>
      refine ⟨rfl, ?_, rfl⟩
      rw [hedges]
      rfl
  | logError herrors =>
      refine ⟨rfl, rfl, ?_⟩
      rw [herrors]
      rfl

/-- Only recording touches the ledger. -/
private theorem ledger_of_change {now : Millis} {c : Change} {d d' : Database}
    {r : Except Fault Unit} (h : Database.change now c d = (r, d')) (hc : c.touchesLedger = false) :
    d'.ledger = d.ledger := by
  cases r with
  | error e => rw [Database.change_error h]
  | ok _ =>
      cases Database.makes_of_change h with
      | record => exact nomatch hc
      | _ => rfl

/-- The assets that are read, by id. -/
def assetView : View RelationalStore AssetsSeen assetEffect :=
  viewOf (fun d => readRows (d.assets.getD [])) (fun _ => rfl) fun h => (affects_of_change h).assets

/-- The edges, in the order in which they were written. -/
def edgeView : View RelationalStore (List Edge) edgeEffect :=
  viewOf (fun d => d.edges.getD []) (fun _ => rfl) fun h => (affects_of_change h).edges

/-- The log, the newest last. -/
def errorView : View RelationalStore (List LoggedError) errorEffect :=
  viewOf (fun d => d.errors.getD []) (fun _ => rfl) fun h => (affects_of_change h).errors

/-- The edges of a store in a database. -/
def edgePart : Part RelationalStore (List Edge) Change.touchesEdges :=
  edgeView.part edgeEffect_of_untouched

/-- The ledger of a store in a database. -/
def ledgerPart : Part RelationalStore (List LedgerRow) Change.touchesLedger where
  seen s := s.database.ledger.getD []
  kept {now c s o s'} h hc := by
    obtain ⟨d, hd, hs⟩ := change_eq h
    have hsame : s'.database.ledger = d.ledger := by
      rcases hs with ⟨-, -, hs⟩ | hchange
      · rw [hs]
      · exact ledger_of_change hchange hc
    rw [hsame]
    obtain rfl | rfl := hd
    · rfl
    · rfl

/-- The contents of a store in a database. -/
def contentsView : View RelationalStore Contents Contents.effect :=
  .contents assetView edgeView errorView

end RelationalStore

end ContentGraph
