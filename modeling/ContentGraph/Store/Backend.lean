import ContentGraph.Store.Basic

/-!
# Backends

What every kind of store can do. A change or a question may fail, and answering a question may
alter the state of the store as well, for a connection is made when one is first needed.
-/

namespace ContentGraph.Store

/-- A change of what a store holds. -/
inductive Change
  /-- Stores an asset; one of the same id is replaced. -/
  | ingest (asset : Asset)
  /-- Takes an asset away, with every edge that touches it. -/
  | remove (id : String)
  /-- Sets fields in the ledger of a platform. -/
  | record (platform : String) (fields : Fields)
  /-- Adds an edge, unless it is there. -/
  | relate (edge : Edge)
  /-- Takes away the edges of a kind that leave an asset. -/
  | clear (origin kind : String)
  /-- Adds to the error log of a platform. -/
  | logError (platform message : String)
deriving Repr, BEq

/-- The outcome of something asked of a store, with the store behind it. -/
abbrev Reply (σ α : Type) := Except Fault α × σ

/-- A kind of store, whose states are `σ`. -/
class Backend (σ : Type) where
  /-- Makes a change at a time. -/
  change : Millis → Change → σ → Reply σ Unit
  /-- The asset of an id. -/
  asset? : String → σ → Reply σ (Option Asset)
  /-- The assets that mention a text and that filters admit, the newest first. -/
  search : String → Filters → σ → Reply σ Page
  /-- The ledger of a platform. -/
  ledger? : String → σ → Reply σ (Option LedgerEntry)
  /-- The edges that touch an asset, in their order. -/
  edges : String → σ → Reply σ (List Edge)
  /-- The last errors of a platform, the newest first, at most so many. -/
  recentErrors : String → Nat → σ → Reply σ (List LoggedError)
  /-- A report on the health of the store. -/
  health : σ → Health × σ
  /-- Holds when the store can be reached. -/
  isConnected : σ → Bool × σ

/-! ## Operations as data -/

/-- Something to ask of a store. -/
inductive Operation
  | change (change : Change)
  | asset (id : String)
  | search (query : String) (filters : Filters)
  | ledger (platform : String)
  | edges (id : String)
  | recentErrors (platform : String) (limit : Nat)
  | health
deriving Repr, BEq

/-- What an operation yields. -/
inductive Result
  | done
  | asset (asset : Option Asset)
  | page (page : Page)
  | ledger (entry : Option LedgerEntry)
  | edges (edges : List Edge)
  | errors (errors : List LoggedError)
  | health (report : Health)
deriving Repr, BEq

/-- Passes what was asked for on. -/
def Reply.map {σ α β : Type} (f : α → β) (r : Reply σ α) : Reply σ β := (r.1.map f, r.2)

/-- Asks something of a store at a time. -/
def perform {σ : Type} [Backend σ] (now : Millis) : Operation → σ → Reply σ Result
  | .change c, s => Reply.map (fun _ => .done) (Backend.change now c s)
  | .asset id, s => Reply.map .asset (Backend.asset? id s)
  | .search query filters, s => Reply.map .page (Backend.search query filters s)
  | .ledger platform, s => Reply.map .ledger (Backend.ledger? platform s)
  | .edges id, s => Reply.map .edges (Backend.edges id s)
  | .recentErrors platform limit, s => Reply.map .errors (Backend.recentErrors platform limit s)
  | .health, s =>
    let (report, s) := Backend.health s
    (.ok (.health report), s)

end ContentGraph.Store
