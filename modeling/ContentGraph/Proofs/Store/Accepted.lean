import ContentGraph.Proofs.Store.Equivalence
import ContentGraph.Proofs.Store.Recall
import ContentGraph.Proofs.Store.Sight

/-!
# What stores hold of what they accepted

In a history a store accepts some changes and refuses others (`accepted`). What it holds behind the
history is told by those that it accepted, whatever their values are and however the clock goes: a
store in memory recalls them (`MemoryStore.recalls_behind`), and a database has the rows of the live
assets, and ledgers of which is read what the accepted updates amount to
(`RelationalStore.holds_behind`).
-/

namespace ContentGraph

open Store (Change Event Fault Operation Result perform)

/-! ## Histories -/

namespace Store

section Course

variable {σ : Type} [Backend σ]

/-- The store behind a history. -/
def behind (release reopen : σ → σ) : List Event → σ → σ
  | [], s => s
  | .ask now operation :: events, s => behind release reopen events (perform now operation s).2
  | .release :: events, s => behind release reopen events (release s)
  | .reopen :: events, s => behind release reopen events (reopen s)

/-- The change that was asked for, if it was made. -/
def acceptedOf (now : Millis) : Operation → Except Fault Result → List (Millis × Change)
  | .change c, .ok _ => [(now, c)]
  | _, _ => []

/-- The changes that a store accepts in a history, each with its time, the first one first. -/
def accepted (release reopen : σ → σ) : List Event → σ → List (Millis × Change)
  | [], _ => []
  | .ask now operation :: events, s =>
    acceptedOf now operation (perform now operation s).1
      ++ accepted release reopen events (perform now operation s).2
  | .release :: events, s => accepted release reopen events (release s)
  | .reopen :: events, s => accepted release reopen events (reopen s)

variable {release reopen : σ → σ}

/-- What every step keeps of a store and of what it accepted holds behind every history. -/
theorem behind_induction {P : List (Millis × Change) → σ → Prop}
    (hrelease : ∀ {L s}, P L s → P L (release s)) (hreopen : ∀ {L s}, P L s → P L (reopen s))
    (hask : ∀ {L s} now operation, P L s →
      P (L ++ acceptedOf now operation (perform now operation s).1) (perform now operation s).2)
    (events : List Event) {L : List (Millis × Change)} {s : σ} (h : P L s) :
    P (L ++ accepted release reopen events s) (behind release reopen events s) := by
  induction events generalizing L s with
  | nil =>
      rw [accepted, List.append_nil]
      exact h
  | cons event events ih =>
      cases event with
      | ask now operation =>
          rw [accepted, ← List.append_assoc]
          exact ih (hask now operation h)
      | release => exact ih (hrelease h)
      | reopen => exact ih (hreopen h)

/-- The last thing that is asked is answered by the store behind what came before. -/
theorem mem_answers_append (events : List Event) (now : Millis) (operation : Operation) (s : σ) :
    (perform now operation (behind release reopen events s)).1
      ∈ answers release reopen (events ++ [.ask now operation]) s := by
  induction events generalizing s with
  | nil => exact List.mem_cons_self
  | cons event events ih =>
      cases event with
      | ask => exact List.mem_cons_of_mem _ (ih _)
      | release => exact ih _
      | reopen => exact ih _

/-- A change that was accepted was asked for. -/
theorem mem_of_mem_accepted {events : List Event} {s : σ} {p : Millis × Change}
    (h : p ∈ accepted release reopen events s) : Event.ask p.1 (.change p.2) ∈ events := by
  induction events generalizing s with
  | nil => exact absurd h List.not_mem_nil
  | cons event events ih =>
      cases event with
      | ask now operation =>
          rcases List.mem_append.1 h with h | h
          · unfold acceptedOf at h
            split at h
            · obtain rfl := List.mem_singleton.1 h
              exact List.mem_cons_self
            · exact absurd h List.not_mem_nil
          · exact List.mem_cons_of_mem _ (ih h)
      | release => exact List.mem_cons_of_mem _ (ih h)
      | reopen => exact List.mem_cons_of_mem _ (ih h)

end Course

/-- A store in memory behind a history, from the empty one on. -/
def memoryBehind (events : List Event) : MemoryStore := behind id id events {}

/-- What a store in memory accepts in a history, from the empty one on. -/
def memoryAccepted (events : List Event) : List (Millis × Change) :=
  accepted id id events ({} : MemoryStore)

/-- A database behind a history, from the empty one on. -/
def relationalBehind (events : List Event) : RelationalStore :=
  behind RelationalStore.release RelationalStore.reopen events {}

/-- What a database accepts in a history, from the empty one on. -/
def relationalAccepted (events : List Event) : List (Millis × Change) :=
  accepted RelationalStore.release RelationalStore.reopen events {}

end Store

/-! ## Live assets -/

theorem mem_of_mem_uncovered {α β : Type} {added? : α → Option β} {covers : α → β → Bool} {L : List α}
    {b : β} (h : b ∈ uncovered added? covers L) : ∃ x ∈ L, added? x = some b := by
  induction L with
  | nil => exact absurd h List.not_mem_nil
  | cons x L ih =>
      have hlater (h : b ∈ uncovered added? covers L) : ∃ y ∈ x :: L, added? y = some b := by
        obtain ⟨y, hy, hadded⟩ := ih h
        exact ⟨y, List.mem_cons_of_mem _ hy, hadded⟩
      unfold uncovered at h
      split at h
      · next c hadded =>
          split at h
          · exact hlater h
          · rcases List.mem_cons.1 h with rfl | h
            · exact ⟨x, List.mem_cons_self, hadded⟩
            · exact hlater h
      · exact hlater h

/-- A live asset was ingested. -/
theorem ingested_of_live {L : List (Millis × Change)} {t : Millis} {a : Asset}
    (h : (t, a) ∈ liveAssets L) : (t, .ingest a) ∈ L := by
  obtain ⟨⟨now, c⟩, hx, hadded⟩ := mem_of_mem_uncovered h
  cases c with
  | ingest b =>
      obtain ⟨rfl, rfl⟩ := Prod.mk.inj (Option.some.inj hadded)
      exact hx
  | _ => cases hadded

/-- No two live assets have one id. -/
theorem pairwise_liveAssets (L : List (Millis × Change)) :
    (liveAssets L).Pairwise fun p q => p.2.id ≠ q.2.id := by
  induction L using List.reverseRecOn with
  | nil => exact .nil
  | append_singleton L x ih =>
      obtain ⟨now, c⟩ := x
      rw [liveAssets_append]
      cases c with
      | ingest a =>
          refine List.pairwise_append.2 ⟨ih.filter _, List.pairwise_singleton _ _, ?_⟩
          intro p hp q hq
          obtain rfl := List.mem_singleton.1 hq
          exact of_decide_eq_true (List.mem_filter.1 hp).2
      | remove id => exact ih.filter _
      | _ => exact ih

/-- A live asset is the one that is found under its id. -/
theorem find?_liveAssets {L : List (Millis × Change)} {p : Millis × Asset} (h : p ∈ liveAssets L) :
    (liveAssets L).find? (fun q => decide (q.2.id = p.2.id)) = some p := by
  have hunique := pairwise_liveAssets L
  generalize liveAssets L = live at h hunique
  induction live with
  | nil => exact absurd h List.not_mem_nil
  | cons q live ih =>
      obtain ⟨hq, hlive⟩ := List.pairwise_cons.1 hunique
      rcases List.mem_cons.1 h with rfl | h
      · exact List.find?_cons_of_pos (decide_eq_true rfl)
      · rw [List.find?_cons, decide_eq_false (hq p h)]
        exact ih h hlive

/-- What is read under an id where some assets are live. -/
def readLive (live : List (Millis × Asset)) (id : String) : Except Fault (Option Asset) :=
  match live.find? (fun p => decide (p.2.id = id)) with
  | some (now, a) => (a.readBack now).map some
  | none => .ok none

/-! ## Stores in memory -/

/-- **Memory.** Behind a history a store in memory recalls all that was asked of it. -/
theorem MemoryStore.recalls_behind (events : List Event) :
    Recalls (Store.memoryAccepted events) (Store.memoryBehind events) := by
  refine Store.behind_induction (fun h => h) (fun h => h) ?_ events Recalls.empty
  intro L m now operation h
  cases operation with
  | change c => exact h.change now c
  | _ =>
      -- a question leaves the store as it was
      show Recalls (L ++ []) m
      rw [List.append_nil]
      exact h

/-- What get shows behind a history. -/
theorem MemoryStore.asset?_behind (events : List Event) (key : String) :
    (Store.Backend.asset? key (Store.memoryBehind events)).1
      = readLive (liveAssets (Store.memoryAccepted events)) key :=
  (recalls_behind events).asset?_eq key

/-! ## Databases -/

/-- A row without its revision. -/
def AssetRow.unnumbered (r : AssetRow) : AssetRow := { r with revision := 0 }

/-- What is written of an asset that was ingested, without its revision. -/
def toRow (p : Millis × Asset) : AssetRow := .ofAsset p.1 0 p.2

namespace Database

variable {L : List (Millis × Change)} {d d' : Database} {now : Millis}

/-- A database with all tables, in which the live assets have their rows, and of whose ledger is read
what the updates amount to. -/
structure Holds (L : List (Millis × Change)) (d : Database) : Prop where
  tables : d.createTables = d
  assets : (d.assets.getD []).map AssetRow.unnumbered = (liveAssets L).map toRow
  ledger : RelationalStore.readLedger (d.ledger.getD [])
    = replay (ledgerReadEffect (Json.reread 126)) L fun _ => .ok none

theorem holds_empty : Holds [] (createTables {}) where
  tables := rfl
  assets := rfl
  ledger := rfl

theorem Holds.assets_eq (h : Holds L d) : d.assets = some (d.assets.getD []) :=
  (congrArg Database.assets h.tables).symm

theorem Holds.ledger_eq (h : Holds L d) : d.ledger = some (d.ledger.getD []) :=
  (congrArg Database.ledger h.tables).symm

/-- A change that is made takes no table away. -/
theorem tables_of_change {c : Change} (h : d.createTables = d)
    (hchange : change now c d = (.ok (), d')) : d'.createTables = d' := by
  have hassets : some (d.assets.getD []) = d.assets := congrArg Database.assets h
  have hedges : some (d.edges.getD []) = d.edges := congrArg Database.edges h
  have hledger : some (d.ledger.getD []) = d.ledger := congrArg Database.ledger h
  have herrors : some (d.errors.getD []) = d.errors := congrArg Database.errors h
  cases makes_of_change hchange <;> simp [createTables, hassets, hedges, hledger, herrors]

/-- A change that is made leaves a database that holds it as well. -/
theorem Holds.change (h : Holds L d) {c : Change} (hchange : change now c d = (.ok (), d')) :
    Holds (L ++ [(now, c)]) d' where
  tables := tables_of_change h.tables hchange
  assets := by
    rw [liveAssets_append]
    cases makes_of_change hchange with
    | @ingest a rows hrows =>
        have hsame := h.assets
        rw [hrows] at hsame
        show (rows.filter _ ++ [_]).map AssetRow.unnumbered = _
        rw [List.map_append, List.map_append]
        congr 1
        exact map_filter_eq hsame fun r : AssetRow => decide (r.id ≠ a.id)
    | @remove id rows edges hrows =>
        have hsame := h.assets
        rw [hrows] at hsame
        exact map_filter_eq hsame fun r : AssetRow => decide (r.id ≠ id)
    | _ => exact h.assets
  ledger := by
    rw [RelationalStore.readLedger_of_change hchange, h.ledger, replay_append]
    rfl

/-- A row of a live asset is read as the asset is read back. -/
theorem decode_of_unnumbered {r : AssetRow} {p : Millis × Asset} (h : r.unnumbered = toRow p) :
    r.decode = p.2.readBack p.1 := by
  rw [← RelationalStore.decode_ofAsset p.1 0 p.2]
  show r.unnumbered.decode = _
  rw [h]
  rfl

/-- Under an id is read what is read back of the live asset. -/
theorem Holds.asset?_eq (h : Holds L d) (id : String) :
    d.asset? id = readLive (liveAssets L) id := by
  have hfind : ((d.assets.getD []).find? fun r => decide (r.id = id)).map AssetRow.unnumbered
      = ((liveAssets L).find? fun p => decide (p.2.id = id)).map toRow :=
    map_find?_eq h.assets fun r : AssetRow => decide (r.id = id)
  unfold readLive
  cases hrow : (d.assets.getD []).find? fun r => decide (r.id = id) with
  | none =>
      rw [hrow] at hfind
      rw [asset?_of_none h.assets_eq hrow, Option.map_eq_none_iff.1 hfind.symm]
  | some r =>
      rw [hrow] at hfind
      obtain ⟨p, hp, hsame⟩ := Option.map_eq_some_iff.1 hfind.symm
      rw [asset?_of_some h.assets_eq hrow, hp, decode_of_unnumbered hsame.symm]

/-- What is told of a ledger is what is read of its rows. -/
theorem Holds.ledger?_eq (h : Holds L d) (platform : String) :
    d.ledger? platform = replay (ledgerReadEffect (Json.reread 126)) L (fun _ => .ok none) platform := by
  rw [← h.ledger]
  unfold RelationalStore.readLedger
  cases hrow : (d.ledger.getD []).find? fun r => decide (r.platform = platform) with
  | none => exact ledger?_of_none h.ledger_eq hrow
  | some row => exact ledger?_of_some h.ledger_eq hrow

end Database

namespace RelationalStore

variable {L : List (Millis × Change)} {s : RelationalStore}

/-- A store that can be reached, whose database, once it is prepared, holds what was accepted. -/
structure Holds (L : List (Millis × Change)) (s : RelationalStore) : Prop where
  reachable : s.obstacle = none
  schema : s.hasSchema = true → s.database.createTables = s.database
  database : s.database.createTables.Holds L

/-- A prepared store holds what its database holds. -/
theorem Holds.of_database {d : Database} (h : d.Holds L) : Holds L ⟨d, none, true, true⟩ where
  reachable := rfl
  schema := fun _ => h.tables
  database := by
    show d.createTables.Holds L
    rw [h.tables]
    exact h

theorem holds_empty : Holds [] {} where
  reachable := rfl
  schema := fun h => absurd h Bool.false_ne_true
  database := Database.holds_empty

/-- A question is put to the prepared database. -/
theorem Holds.query_eq {α : Type} (h : Holds L s) (q : Database → Except Fault α) :
    s.query q = (q s.database.createTables, ⟨s.database.createTables, none, true, true⟩) := by
  unfold query
  rw [prepare_eq h.reachable h.schema]

/-- A statement runs on the prepared database. -/
theorem Holds.execute_eq {α : Type} (h : Holds L s) (statement : Database.Statement α) :
    s.execute statement = ((statement s.database.createTables).1,
      ⟨(statement s.database.createTables).2, none, true, true⟩) := by
  unfold execute
  rw [prepare_eq h.reachable h.schema]

theorem Holds.change (h : Holds L s) (now : Millis) (c : Change) :
    Holds (L ++ Store.acceptedOf now (.change c) (perform now (.change c) s).1)
      (perform now (.change c) s).2 := by
  have hperform : perform now (.change c) s
      = Store.Reply.map (fun _ => .done) (s.execute (Database.change now c)) := rfl
  rw [hperform, h.execute_eq]
  rcases hchange : Database.change now c s.database.createTables with ⟨e | ⟨⟩, d⟩
  · -- a change that is refused leaves the database as it was
    obtain rfl := Database.change_error hchange
    show Holds (L ++ []) _
    rw [List.append_nil]
    exact .of_database h.database
  · exact .of_database (h.database.change hchange)

/-- **Databases.** Behind a history a database holds what the store accepted. -/
theorem holds_behind (events : List Event) :
    Holds (Store.relationalAccepted events) (Store.relationalBehind events) := by
  refine Store.behind_induction (fun h => ⟨h.reachable, h.schema, h.database⟩)
    (fun h => ⟨h.reachable, fun hs => absurd hs Bool.false_ne_true, h.database⟩) ?_ events holds_empty
  intro L s now operation h
  -- a question leaves the store prepared
  have hquery : Holds (L ++ []) ⟨s.database.createTables, none, true, true⟩ := by
    rw [List.append_nil]
    exact .of_database h.database
  have hask {α : Type} (q : Database → Except Fault α) : Holds (L ++ []) (s.query q).2 := by
    rw [h.query_eq]
    exact hquery
  cases operation with
  | change c => exact h.change now c
  | asset id => exact hask (Database.asset? id)
  | search query filters => exact hask (Database.search query filters)
  | ledger platform => exact hask (Database.ledger? platform)
  | edges id => exact hask (Database.edgesOf id)
  | recentErrors platform limit => exact hask (Database.recentErrors platform limit)
  | health =>
      have hhealth : s.health.2 = (s.query Database.health).2 := by
        unfold health
        rcases s.query Database.health with ⟨_ | _, _⟩ <;> rfl
      show Holds (L ++ []) s.health.2
      rw [hhealth]
      exact hask Database.health

/-- What get shows behind a history. -/
theorem asset?_behind (events : List Event) (key : String) :
    (Store.Backend.asset? key (Store.relationalBehind events)).1
      = readLive (liveAssets (Store.relationalAccepted events)) key := by
  show ((Store.relationalBehind events).query (Database.asset? key)).1 = _
  rw [(holds_behind events).query_eq]
  exact (holds_behind events).database.asset?_eq key

end RelationalStore

end ContentGraph
