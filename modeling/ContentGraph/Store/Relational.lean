import ContentGraph.Store.Database

/-!
# The store in a database

A database behind a connection. The connection is made when it is first needed, and again after it
was closed; the missing tables are made once, when the store is first used. A store that is opened
anew makes them again.
-/

namespace ContentGraph

/-- A store in a database. -/
structure RelationalStore where
  database : Database := {}
  /-- What keeps a connection from being made. -/
  obstacle : Option Store.Fault := none
  isOpen : Bool := false
  /-- Whether the tables have been made since the store was opened. -/
  hasSchema : Bool := false
deriving Repr, DecidableEq

namespace RelationalStore

open Store

/-! ## The connection -/

/-- Makes a connection, unless there is one. -/
def connect (s : RelationalStore) : Reply RelationalStore Unit :=
  if s.isOpen then (.ok (), s)
  else
    match s.obstacle with
    | some e => (.error e, s)
    | none => (.ok (), { s with isOpen := true })

/-- Makes the missing tables over a connection. -/
def createTables (s : RelationalStore) : Reply RelationalStore Unit :=
  match s.connect with
  | (.ok (), s) => (.ok (), { s with database := s.database.createTables })
  | (.error e, s) => (.error e, s)

/-- Makes a connection and, the first time, the missing tables. -/
def prepare (s : RelationalStore) : Reply RelationalStore Unit :=
  match s.connect with
  | (.ok (), s) =>
    if s.hasSchema then (.ok (), s)
    else (.ok (), { s with database := s.database.createTables, hasSchema := true })
  | (.error e, s) => (.error e, s)

/-- Where nothing keeps a connection from being made, a store is prepared; tables that it has made
are not made again. -/
theorem prepare_eq {s : RelationalStore} (h : s.obstacle = none)
    (hs : s.hasSchema = true → s.database.createTables = s.database) :
    s.prepare = (.ok (), ⟨s.database.createTables, none, true, true⟩) := by
  obtain ⟨database, obstacle, isOpen, hasSchema⟩ := s
  simp only at h hs
  subst h
  unfold prepare connect
  -- tables are made on connecting, on the first use, twice or not at all
  cases isOpen <;> cases hasSchema <;> simp_all

/-- Closes the connection. -/
def release (s : RelationalStore) : RelationalStore := { s with isOpen := false }

/-- A new store on the same database. -/
def reopen (s : RelationalStore) : RelationalStore :=
  { database := s.database, obstacle := s.obstacle }

/-! ## Operations -/

/-- Runs a statement on the prepared database. -/
def execute {α : Type} (statement : Database.Statement α) (s : RelationalStore) :
    Reply RelationalStore α :=
  match s.prepare with
  | (.ok (), s) =>
    let (r, d) := statement s.database
    (r, { s with database := d })
  | (.error e, s) => (.error e, s)

/-- Answers a query from the prepared database. -/
def query {α : Type} (q : Database → Except Fault α) (s : RelationalStore) :
    Reply RelationalStore α :=
  match s.prepare with
  | (.ok (), s) => (q s.database, s)
  | (.error e, s) => (.error e, s)

/-- A report on the health of the store; one that cannot be made tells why. -/
def health (s : RelationalStore) : Health × RelationalStore :=
  match s.query Database.health with
  | (.ok report, s) => (report, s)
  | (.error e, s) => (.disconnected e.message, s)

/-- Holds when a connection can be made. -/
def isConnected (s : RelationalStore) : Bool × RelationalStore :=
  match s.connect with
  | (.ok (), s) => (true, s)
  | (.error _, s) => (false, s)

instance : Backend RelationalStore where
  change now c := execute (Database.change now c)
  asset? id := query (Database.asset? id)
  search text filters := query (Database.search text filters)
  ledger? platform := query (Database.ledger? platform)
  edges id := query (Database.edgesOf id)
  recentErrors platform limit := query (Database.recentErrors platform limit)
  health := health
  isConnected := isConnected

end RelationalStore

end ContentGraph
