import ContentGraph.Asset.Filters
import ContentGraph.FileTree.Basic
import ContentGraph.Text.Search

/-!
# What stores hold

Beside assets a store holds directed edges between them, one ledger entry for each platform, and
a log of errors. This module names what goes into a store and what comes out of one.
-/

namespace ContentGraph

/-- A directed edge between two assets. -/
structure Edge where
  origin : String
  target : String
  kind : String
deriving Repr, DecidableEq

/-- The kind of edge from a component to a component that it imports. -/
def importKind : String := "IMPORTS"

namespace Edge

/-- An edge as JSON. -/
def toJson (e : Edge) : Json := .ofFields [
  ("fromId", .string e.origin),
  ("toId", .string e.target),
  ("kind", .string e.kind)]

/-- Holds when an asset is at either end. -/
def touches (e : Edge) (id : String) : Bool := e.origin == id || e.target == id

/-- The order in which edges are listed: by origin, then target, then kind. -/
def le (a b : Edge) : Bool :=
  if a.origin = b.origin then
    if a.target = b.target then a.kind ≤ b.kind else a.target < b.target
  else a.origin < b.origin

/-- Edges in the order in which they are listed. -/
def sorted (edges : List Edge) : List Edge := edges.mergeSort le

end Edge

/-! ## The ledger -/

/-- What is known about the extractions of a platform. -/
structure LedgerEntry where
  platform : String
  fields : Fields
  updatedAt : Millis
deriving Repr, BEq

namespace LedgerEntry

/-- The members that are written of an entry: its fields stand between the platform and the time of
the last update. -/
def members (e : LedgerEntry) : List (String × Json) :=
  ("platform", .string e.platform) :: e.fields ++ [("updatedAt", .string e.updatedAt.iso)]

/-- An entry as JSON. A field named like the platform is shown in its place, one named like the time
is hidden by it. -/
def toJson (e : LedgerEntry) : Json := .ofFields e.members

/-- A field that counts something. -/
def count? (e : LedgerEntry) (key : String) : Option Nat :=
  (e.fields.get? key).bind Json.natural?

/-- The time of the last extraction, if the fields hold one. -/
def lastExtraction? (e : LedgerEntry) : Option String := Metadata.textField? "lastExtraction" e.fields

/-- The names of fields that belong to the ledger itself. -/
def reserved : List String := ["platform", "updatedAt"]

/-- Sets fields one by one; reserved names are passed over. -/
def merge (old new : Fields) : Fields :=
  new.foldl (fun fields p => if p.1 ∈ reserved then fields else fields.insert p.1 p.2) old

end LedgerEntry

/-- The members that are written of the ledger of a platform; a platform without an entry is marked
as not run. -/
def ledgerMembers (platform : String) : Option LedgerEntry → List (String × Json)
  | some e => e.members
  | none => [("platform", .string platform), ("status", .string "not_run")]

/-- The ledger of a platform as JSON. -/
def ledgerJson (platform : String) (entry : Option LedgerEntry) : Json :=
  .ofFields (ledgerMembers platform entry)

/-! ## The error log -/

/-- An error in the log of a platform. -/
structure LoggedError where
  platform : String
  message : String
  createdAt : Millis
deriving Repr, DecidableEq

/-- An error as JSON. -/
def LoggedError.toJson (e : LoggedError) : Json := .ofFields [
  ("platform", .string e.platform),
  ("message", .string e.message),
  ("createdAt", .string e.createdAt.iso)]

/-! ## Pages -/

/-- A page of a search, and whether the limit cut matches off. -/
structure Page where
  items : List Asset
  hasMore : Bool
deriving Repr, BEq

/-- A page as JSON. -/
def Page.toJson (p : Page) : Json := .ofFields [
  ("items", .array (p.items.map Asset.toJson)),
  ("total", .ofNat p.items.length),
  ("hasMore", .bool p.hasMore)]

/-- Holds when a text stands in the title or in the content of an asset. -/
def Asset.mentions (a : Asset) (query : String) : Bool :=
  Text.contains query.toList a.title.toList || Text.contains query.toList a.content.toList

/-! ## Health -/

/-- What keeps the assets. -/
structure Engine where
  name : String
  version : String
  edition : String
deriving Repr, DecidableEq

/-- The last extraction of a platform. -/
structure RecentExtraction where
  platform : String
  lastExtraction : Option String
  updatedAt : Millis
deriving Repr, DecidableEq

/-- The most extractions that a report on health lists. -/
def recentExtractionsLimit : Nat := 10

/-- The last extraction in a ledger entry. -/
def RecentExtraction.ofEntry (e : LedgerEntry) : RecentExtraction :=
  ⟨e.platform, e.lastExtraction?, e.updatedAt⟩

/-- A report on the health of a store. -/
inductive Health
  | connected (engine : Engine) (assets : Nat) (recent : List RecentExtraction)
  | disconnected (error : String)
deriving Repr, DecidableEq

/-- The fields of a report. -/
def Health.fields : Health → List (String × Json)
  | .connected engine assets recent => [
      ("connected", .bool true),
      ("database", .ofFields [
        ("name", .string engine.name),
        ("version", .string engine.version),
        ("edition", .string engine.edition)]),
      ("contentAssets", .ofNat assets),
      ("recentExtractions", .array (recent.map fun r => .ofFields [
        ("platform", .string r.platform),
        ("lastExtraction", (r.lastExtraction.map Json.string).getD .null),
        ("updatedAt", .string r.updatedAt.iso)]))]
  | .disconnected error => [("connected", .bool false), ("error", .string error)]

/-- A report as JSON. -/
def Health.toJson (h : Health) : Json := .ofFields h.fields

/-! ## Faults -/

namespace Store

/-- Why a store does not do what it is asked. -/
inductive Fault
  /-- A table is missing. -/
  | noTable (table : String)
  /-- The directory of the file cannot be made. -/
  | noDirectory (path : String) (fault : FileFault)
  /-- The file cannot be opened. -/
  | unopened
  /-- The file holds something else. -/
  | notDatabase
  /-- A stored text cannot be read. -/
  | undecodable
deriving Repr, DecidableEq

/-- The wording of a fault. -/
def Fault.message : Fault → String
  | .noTable table =>
    "store unavailable: error returned from database: (code: 1) no such table: " ++ table
  | .noDirectory path fault => "store unavailable: " ++ path ++ ": " ++ fault.message
  | .unopened =>
    "store unavailable: error returned from database: (code: 14) unable to open database file"
  | .notDatabase =>
    "store unavailable: error returned from database: (code: 26) file is not a database"
  | .undecodable => "metadata serialization failed"

end Store

end ContentGraph
