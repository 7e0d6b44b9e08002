import ContentGraph.Json.Printer
import ContentGraph.Store.Relational
import ContentGraph.Text.Utf8

/-!
# Databases in files

A database is kept in a file as JSON: for each table the list of its rows, or `null` if it is
missing. An empty file is a database without tables.
-/

namespace ContentGraph

/-! ## Rows as JSON -/

namespace AssetRow

/-- A row as JSON. -/
def toJson (r : AssetRow) : Json := .ofFields [
  ("id", .string r.id),
  ("title", .string r.title),
  ("content", .string r.content),
  ("type", .string r.type),
  ("source", .string r.source),
  ("metadata", .string r.metadata),
  ("updated_at", .number (.integer r.updatedAt)),
  ("revision", .ofNat r.revision)]

/-- Reads a row. -/
def ofJson? (j : Json) : Option AssetRow := do
  return {
    id := ← (← j.field? "id").string?
    title := ← (← j.field? "title").string?
    content := ← (← j.field? "content").string?
    type := ← (← j.field? "type").string?
    source := ← (← j.field? "source").string?
    metadata := ← (← j.field? "metadata").string?
    updatedAt := ← (← j.field? "updated_at").integer?
    revision := ← (← j.field? "revision").natural? }

end AssetRow

/-- Reads an edge. -/
def Edge.ofJson? (j : Json) : Option Edge := do
  return {
    origin := ← (← j.field? "fromId").string?
    target := ← (← j.field? "toId").string?
    kind := ← (← j.field? "kind").string? }

namespace LedgerRow

/-- A row as JSON. -/
def toJson (r : LedgerRow) : Json := .ofFields [
  ("platform", .string r.platform),
  ("fields", .string r.fields),
  ("updated_at", .number (.integer r.updatedAt)),
  ("revision", .ofNat r.revision)]

/-- Reads a row. -/
def ofJson? (j : Json) : Option LedgerRow := do
  return {
    platform := ← (← j.field? "platform").string?
    fields := ← (← j.field? "fields").string?
    updatedAt := ← (← j.field? "updated_at").integer?
    revision := ← (← j.field? "revision").natural? }

end LedgerRow

namespace LoggedError

/-- A row as JSON. -/
def toRow (e : LoggedError) : Json := .ofFields [
  ("platform", .string e.platform),
  ("message", .string e.message),
  ("created_at", .number (.integer e.createdAt))]

/-- Reads a row. -/
def ofRow? (j : Json) : Option LoggedError := do
  return {
    platform := ← (← j.field? "platform").string?
    message := ← (← j.field? "message").string?
    createdAt := ← (← j.field? "created_at").integer? }

end LoggedError

/-! ## Images -/

namespace Database

/-- A table as JSON. -/
def tableJson {α : Type} (row : α → Json) : Option (List α) → Json
  | some rows => .array (rows.map row)
  | none => .null

/-- Reads a table. -/
def readTable? {α : Type} (row? : Json → Option α) : Json → Option (Option (List α))
  | .null => some none
  | j => (j.items?.bind (·.mapM row?)).map some

/-- The text of a database. -/
def image (d : Database) : String := (Json.ofFields [
  (assetTable, tableJson AssetRow.toJson d.assets),
  (edgeTable, tableJson Edge.toJson d.edges),
  (ledgerTable, tableJson LedgerRow.toJson d.ledger),
  (errorTable, tableJson LoggedError.toRow d.errors)]).render

/-- The database in a text. -/
def ofImage? (text : String) : Option Database :=
  if text.isEmpty then some {}
  else do
    let j ← Json.parse? text
    return {
      assets := ← readTable? AssetRow.ofJson? (← j.field? assetTable)
      edges := ← readTable? Edge.ofJson? (← j.field? edgeTable)
      ledger := ← readTable? LedgerRow.ofJson? (← j.field? ledgerTable)
      errors := ← readTable? LoggedError.ofRow? (← j.field? errorTable) }

/-- The database in the bytes of a file. -/
def ofBytes? (bytes : List UInt8) : Option Database :=
  match Utf8.decode bytes with
  | .ok s => ofImage? (String.ofList s)
  | .error _ => none

end Database

/-! ## Files -/

namespace RelationalStore

open Store

/-- The tree with the directories that a file needs. -/
def makeRoom (tree : FileTree) (path : String) : Except Fault FileTree :=
  let parent := String.ofList ((Path.parent? path.toList).getD [])
  match tree.makeDirectories (parent.length + 1) parent with
  | .ok tree => .ok tree
  | .error e => .error (.noDirectory parent e)

/-- The store in a file of a tree, which need not be there. -/
def atPath (tree : FileTree) (path : String) : RelationalStore :=
  match makeRoom tree path with
  | .error e => { obstacle := some e }
  | .ok tree =>
    match tree.read path with
    | .error .missing => {}
    | .error _ => { obstacle := some .unopened }
    | .ok (bytes, _) =>
      match Database.ofBytes? bytes with
      | some database => { database }
      | none => { obstacle := some .notDatabase }

/-- The tree with the database in its file. A store that was never connected leaves no file. -/
def save (now : Millis) (path : String) (s : RelationalStore) (tree : FileTree) : FileTree :=
  if s.isOpen then
    let written := do
      let tree ← (makeRoom tree path).toOption
      (tree.write path (Utf8.encode s.database.image.toList) now).toOption
    written.getD tree
  else tree

end RelationalStore

end ContentGraph
