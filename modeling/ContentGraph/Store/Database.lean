import ContentGraph.Json.Reader
import ContentGraph.Store.Backend
import ContentGraph.Word

/-!
# A database of four tables

Assets, edges, ledger entries and logged errors as rows. A table may be missing, and a stored text
may be one that cannot be read; every statement says what it then does. A row is newer than
another if it was updated later or, at the same time, has the higher revision.
-/

namespace ContentGraph

/-- A row of the table of assets; the type and the metadata are kept as they are written. -/
structure AssetRow where
  id : String
  title : String
  content : String
  type : String
  source : String
  metadata : String
  updatedAt : Millis
  revision : Nat
deriving Repr, DecidableEq

/-- A row of the ledger; the fields are kept as they are written. -/
structure LedgerRow where
  platform : String
  fields : String
  updatedAt : Millis
  revision : Nat
deriving Repr, DecidableEq

/-- Four tables, of which each may be missing. -/
structure Database where
  assets : Option (List AssetRow) := none
  edges : Option (List Edge) := none
  ledger : Option (List LedgerRow) := none
  /-- The newest last. -/
  errors : Option (List LoggedError) := none
deriving Repr, DecidableEq

open Store

/-! ## Rows -/

/-- The revision that comes after all of some rows. -/
def nextRevision (revisions : List Nat) : Nat := revisions.foldl max 0 + 1

/-- Holds when a row that was updated at `a` stands no later in the order than one at `b`. -/
def noOlder (a b : Millis × Nat) : Bool := b.1 < a.1 || (b.1 == a.1 && b.2 ≤ a.2)

namespace AssetRow

/-- The row that is written for an asset. -/
def ofAsset (now : Millis) (revision : Nat) (a : Asset) : AssetRow where
  id := a.id
  title := a.title
  content := a.content
  type := a.type.name
  source := a.source
  metadata := a.metadata.toBlob a.source now.iso
  updatedAt := now
  revision := revision

/-- The type that a row shows: a name that is no type is read as `asset`. -/
def shownType (r : AssetRow) : AssetType := (AssetType.ofName? r.type).getD .asset

/-- The asset in a row. -/
def decode (r : AssetRow) : Except Fault Asset :=
  match Metadata.ofBlob? r.metadata with
  | some metadata => .ok ⟨r.id, r.title, r.content, r.shownType, r.source, metadata⟩
  | none => .error .undecodable

/-- Holds when a row is found by a search: the text stands in the title or the content, and the
source and the written type are the wanted ones. -/
def isFound (query : String) (filters : Filters) (r : AssetRow) : Bool :=
  (query.isEmpty || Text.contains query.toList r.title.toList
    || Text.contains query.toList r.content.toList)
    && filters.source.all (· == r.source) && filters.type.all (·.name == r.type)

/-- Rows with the newest first. -/
def newestFirst (rows : List AssetRow) : List AssetRow :=
  rows.mergeSort fun a b => noOlder (a.updatedAt, a.revision) (b.updatedAt, b.revision)

end AssetRow

namespace LedgerRow

/-- The fields in a row, if its text is a JSON object. -/
def fields? (r : LedgerRow) : Option Fields :=
  match Json.parse? r.fields with
  | some (.object fields) => some fields
  | _ => none

/-- The ledger entry in a row. -/
def decode (r : LedgerRow) : Except Fault LedgerEntry :=
  match r.fields? with
  | some fields => .ok ⟨r.platform, fields, r.updatedAt⟩
  | none => .error .undecodable

/-- The last extraction in a row; a text that cannot be read tells of none. -/
def recent (r : LedgerRow) : RecentExtraction :=
  .ofEntry ⟨r.platform, r.fields?.getD [], r.updatedAt⟩

/-- Rows with the newest first. -/
def newestFirst (rows : List LedgerRow) : List LedgerRow :=
  rows.mergeSort fun a b => noOlder (a.updatedAt, a.revision) (b.updatedAt, b.revision)

end LedgerRow

/-! ## Limits -/

/-- The highest number of rows that a query can ask for. -/
def maxRowCount : Nat := Word.count 63 - 1

/-- At most so many rows; a negative number asks for all. -/
def limitRows {α : Type} (count : Int) (rows : List α) : List α :=
  if count < 0 then rows else rows.take count.toNat

/-- The number of rows to ask for when a page holds `limit`: one more, which tells whether there
are further matches. -/
def fetchCount (limit : Nat) : Int :=
  if limit < maxRowCount then (limit + 1 : Nat) else maxRowCount

namespace Database

/-! ## Tables -/

/-- The name of the table of assets. -/
def assetTable : String := "content_assets"

/-- The name of the table of edges. -/
def edgeTable : String := "relationships"

/-- The name of the table of ledger entries. -/
def ledgerTable : String := "extraction_metadata"

/-- The name of the table of logged errors. -/
def errorTable : String := "sync_errors"

/-- The rows of a table that is there. -/
def rowsOf {α : Type} (name : String) (table : Option (List α)) : Except Fault (List α) :=
  match table with
  | some rows => .ok rows
  | none => .error (.noTable name)

/-- Makes the tables that are missing. -/
def createTables (d : Database) : Database where
  assets := some (d.assets.getD [])
  edges := some (d.edges.getD [])
  ledger := some (d.ledger.getD [])
  errors := some (d.errors.getD [])

/-- Takes a table away; `none` if there is no such table. -/
def dropTable? (name : String) (d : Database) : Option Database :=
  if name = assetTable then d.assets.map fun _ => { d with assets := none }
  else if name = edgeTable then d.edges.map fun _ => { d with edges := none }
  else if name = ledgerTable then d.ledger.map fun _ => { d with ledger := none }
  else if name = errorTable then d.errors.map fun _ => { d with errors := none }
  else none

/-! ## Statements that change rows -/

/-- A statement: its outcome and what it leaves. -/
abbrev Statement (α : Type) := Database → Reply Database α

/-- Changes the rows of a table that is there. -/
def onRows {α : Type} (name : String) (table : Database → Option (List α))
    (put : List α → Database → Database) (change : List α → List α) : Statement Unit := fun d =>
  match table d with
  | some rows => (.ok (), put (change rows) d)
  | none => (.error (.noTable name), d)

/-- Changes the rows of assets. -/
def onAssets : (List AssetRow → List AssetRow) → Statement Unit :=
  onRows assetTable assets fun rows d => { d with assets := some rows }

/-- Changes the edges. -/
def onEdges : (List Edge → List Edge) → Statement Unit :=
  onRows edgeTable edges fun rows d => { d with edges := some rows }

/-- Changes the rows of the ledger. -/
def onLedger : (List LedgerRow → List LedgerRow) → Statement Unit :=
  onRows ledgerTable ledger fun rows d => { d with ledger := some rows }

/-- Changes the logged errors. -/
def onErrors : (List LoggedError → List LoggedError) → Statement Unit :=
  onRows errorTable errors fun rows d => { d with errors := some rows }

/-- Runs one statement after another, which sees what the first yields. A fault ends the run and
takes back nothing. -/
def andThen {α β : Type} (first : Statement α) (next : α → Statement β) : Statement β := fun d =>
  match first d with
  | (.ok x, d) => next x d
  | (.error e, d) => (.error e, d)

/-- Runs statements as one: if one fails, all is taken back. -/
def transaction {α : Type} (body : Statement α) : Statement α := fun d =>
  match body d with
  | (.ok x, d) => (.ok x, d)
  | (.error e, _) => (.error e, d)

/-- Stores an asset; one of the same id is replaced. -/
def ingest (now : Millis) (a : Asset) : Statement Unit :=
  onAssets fun rows =>
    rows.filter (·.id ≠ a.id) ++ [.ofAsset now (nextRevision (rows.map (·.revision))) a]

/-- Takes away the edges that touch an asset. -/
def deleteEdges (id : String) : Statement Unit := onEdges fun rows => rows.filter fun e => !e.touches id

/-- Takes away the row of an asset. -/
def deleteAsset (id : String) : Statement Unit := onAssets fun rows => rows.filter (·.id ≠ id)

/-- Takes an asset away, first its edges and then its row. -/
def remove (id : String) : Statement Unit :=
  transaction (andThen (deleteEdges id) fun () => deleteAsset id)

/-- The fields of a platform's ledger, of which there are none before the first entry. -/
def selectFields (platform : String) : Statement Fields := fun d =>
  let fields := do
    match (← rowsOf ledgerTable d.ledger).find? (·.platform = platform) with
    | none => return []
    | some row => return (← row.decode).fields
  (fields, d)

/-- Writes the row of a platform's ledger. -/
def upsertLedger (now : Millis) (platform : String) (fields : Fields) : Statement Unit :=
  onLedger fun rows => rows.filter (·.platform ≠ platform)
    ++ [⟨platform, (Json.object fields).render, now, nextRevision (rows.map (·.revision))⟩]

/-- Sets fields in the ledger of a platform. -/
def record (now : Millis) (platform : String) (fields : Fields) : Statement Unit :=
  transaction (andThen (selectFields platform) fun old =>
    upsertLedger now platform (LedgerEntry.merge old fields))

/-- Adds an edge, unless it is there. -/
def relate (e : Edge) : Statement Unit := onEdges fun rows => if e ∈ rows then rows else rows ++ [e]

/-- Takes away the edges of a kind that leave an asset. -/
def clear (origin kind : String) : Statement Unit :=
  onEdges fun rows => rows.filter fun e => !(e.origin == origin && e.kind == kind)

/-- Adds to the error log of a platform. -/
def logError (now : Millis) (platform message : String) : Statement Unit :=
  onErrors fun rows => rows ++ [⟨platform, message, now⟩]

/-- Makes a change at a time. -/
def change (now : Millis) : Change → Statement Unit
  | .ingest a => ingest now a
  | .remove id => remove id
  | .record platform fields => record now platform fields
  | .relate e => relate e
  | .clear origin kind => clear origin kind
  | .logError platform message => logError now platform message

/-! ## Queries -/

/-- The asset of an id. -/
def asset? (id : String) (d : Database) : Except Fault (Option Asset) := do
  match (← rowsOf assetTable d.assets).find? (·.id = id) with
  | some row => return some (← row.decode)
  | none => return none

/-- The rows that a search finds, the newest first. -/
def hits (query : String) (filters : Filters) (d : Database) : Except Fault (List AssetRow) := do
  let rows ← rowsOf assetTable d.assets
  return AssetRow.newestFirst (rows.filter (AssetRow.isFound query filters))

/-- The first matches, at most as many as the limit says. All rows that were asked for are read,
also the one that only tells that there are more. -/
def search (query : String) (filters : Filters) (d : Database) : Except Fault Page := do
  let hits ← d.hits query filters
  match filters.effectiveLimit with
  | none => return ⟨← hits.mapM AssetRow.decode, false⟩
  | some limit =>
    let items ← (limitRows (fetchCount limit) hits).mapM AssetRow.decode
    return ⟨items.take limit, limit < items.length⟩

/-- The ledger of a platform. -/
def ledger? (platform : String) (d : Database) : Except Fault (Option LedgerEntry) := do
  match (← rowsOf ledgerTable d.ledger).find? (·.platform = platform) with
  | some row => return some (← row.decode)
  | none => return none

/-- The edges that touch an asset, in their order. -/
def edgesOf (id : String) (d : Database) : Except Fault (List Edge) := do
  return Edge.sorted ((← rowsOf edgeTable d.edges).filter (·.touches id))

/-- The last errors of a platform. The limit is a signed number of 64 bits, so that one from 2⁶³
on asks for all. -/
def recentErrors (platform : String) (limit : Nat) (d : Database) :
    Except Fault (List LoggedError) := do
  let rows ← rowsOf errorTable d.errors
  return limitRows (Int.bmod limit (Word.count 64)) (rows.reverse.filter (·.platform = platform))

/-- What keeps the assets. -/
def engine : Engine := ⟨"SQLite", "3.46.0", "embedded"⟩

/-- A report on the health of the store. -/
def health (d : Database) : Except Fault Health := do
  let assets ← rowsOf assetTable d.assets
  let ledger ← rowsOf ledgerTable d.ledger
  let recent := (LedgerRow.newestFirst ledger).take recentExtractionsLimit
  return .connected engine assets.length (recent.map LedgerRow.recent)

/-! ## Changes from outside -/

/-- Sets the written type of an asset. -/
def setType (id type : String) : Statement Unit :=
  onAssets fun rows => rows.map fun r => if r.id = id then { r with type } else r

/-- Sets the stored text of an asset's metadata. -/
def setMetadata (id metadata : String) : Statement Unit :=
  onAssets fun rows => rows.map fun r => if r.id = id then { r with metadata } else r

/-- Sets the stored text of a platform's ledger. -/
def setFields (platform fields : String) : Statement Unit :=
  onLedger fun rows => rows.map fun r => if r.platform = platform then { r with fields } else r

end Database

end ContentGraph
