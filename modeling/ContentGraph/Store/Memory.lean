import ContentGraph.Store.Backend

/-!
# The store in memory

Assets and ledger entries are kept with the revision at which they were written, one count for
both, and are sorted by it when they are listed. Metadata is kept as its stored text and read on
the way out, as in every store.
-/

namespace ContentGraph

/-- An asset, the stored text of its metadata, and the revision of the store that wrote it. -/
structure StoredAsset where
  asset : Asset
  blob : String
  revision : Nat
deriving Repr, BEq

namespace StoredAsset

/-- What is stored of an asset at a time. -/
def ofAsset (now : Millis) (revision : Nat) (a : Asset) : StoredAsset :=
  ⟨a, a.metadata.toBlob a.source now.iso, revision⟩

/-- The asset with the metadata that its text holds. -/
def decode (s : StoredAsset) : Except Store.Fault Asset :=
  match Metadata.ofBlob? s.blob with
  | some metadata => .ok { s.asset with metadata }
  | none => .error .undecodable

/-- Stored assets with the newest first. -/
def newestFirst (assets : List StoredAsset) : List StoredAsset :=
  assets.mergeSort fun a b => b.revision ≤ a.revision

end StoredAsset

/-- A ledger entry and the revision of the store that wrote it. -/
structure StoredEntry where
  entry : LedgerEntry
  revision : Nat
deriving Repr, BEq

/-- Stored entries with the newest first. -/
def StoredEntry.newestFirst (entries : List StoredEntry) : List StoredEntry :=
  entries.mergeSort fun a b => b.revision ≤ a.revision

/-- A store in memory. -/
structure MemoryStore where
  /-- One for each id, in no order that matters. -/
  assets : List StoredAsset := []
  /-- One for each platform, in no order that matters. -/
  ledger : List StoredEntry := []
  edges : List Edge := []
  /-- The newest last. -/
  errors : List LoggedError := []
  /-- The last revision that was given out. -/
  revision : Nat := 0
deriving Repr, BEq

namespace MemoryStore

open Store

/-! ## Changes -/

/-- Stores an asset under the next revision; one of the same id is replaced. -/
def ingest (now : Millis) (a : Asset) (m : MemoryStore) : MemoryStore :=
  let revision := m.revision + 1
  { m with
    assets := m.assets.filter (·.asset.id ≠ a.id) ++ [.ofAsset now revision a]
    revision }

/-- Takes an asset away, with every edge that touches it. -/
def remove (id : String) (m : MemoryStore) : MemoryStore :=
  { m with
    assets := m.assets.filter (·.asset.id ≠ id)
    edges := m.edges.filter fun e => !e.touches id }

/-- The ledger of a platform. -/
def entry? (platform : String) (m : MemoryStore) : Option LedgerEntry :=
  (m.ledger.find? (·.entry.platform = platform)).map (·.entry)

/-- Sets fields in the ledger of a platform under the next revision. -/
def record (now : Millis) (platform : String) (fields : Fields) (m : MemoryStore) : MemoryStore :=
  let revision := m.revision + 1
  let old := ((m.entry? platform).map (·.fields)).getD []
  { m with
    ledger := m.ledger.filter (·.entry.platform ≠ platform)
      ++ [⟨⟨platform, LedgerEntry.merge old fields, now⟩, revision⟩]
    revision }

/-- Adds an edge, unless it is there. -/
def relate (e : Edge) (m : MemoryStore) : MemoryStore :=
  if e ∈ m.edges then m else { m with edges := m.edges ++ [e] }

/-- Adding an edge changes nothing but the edges. -/
theorem relate_eq (e : Edge) (m : MemoryStore) :
    m.relate e = { m with edges := if e ∈ m.edges then m.edges else m.edges ++ [e] } := by
  unfold relate
  split <;> rfl

/-- Takes away the edges of a kind that leave an asset. -/
def clear (origin kind : String) (m : MemoryStore) : MemoryStore :=
  { m with edges := m.edges.filter fun e => !(e.origin == origin && e.kind == kind) }

/-- Adds to the error log of a platform. -/
def logError (now : Millis) (platform message : String) (m : MemoryStore) : MemoryStore :=
  { m with errors := m.errors ++ [⟨platform, message, now⟩] }

/-- Makes a change at a time. -/
def change (now : Millis) : Change → MemoryStore → MemoryStore
  | .ingest a, m => m.ingest now a
  | .remove id, m => m.remove id
  | .record platform fields, m => m.record now platform fields
  | .relate e, m => m.relate e
  | .clear origin kind, m => m.clear origin kind
  | .logError platform message, m => m.logError now platform message

/-! ## Questions -/

/-- The asset of an id. -/
def asset? (id : String) (m : MemoryStore) : Except Fault (Option Asset) :=
  match m.assets.find? (·.asset.id = id) with
  | some s => s.decode.map some
  | none => .ok none

/-- The stored assets that a search finds, the newest first. -/
def hits (query : String) (filters : Filters) (m : MemoryStore) : List StoredAsset :=
  StoredAsset.newestFirst
    (m.assets.filter fun s => s.asset.mentions query && filters.admits s.asset)

/-- The first matches, at most as many as the limit says. -/
def search (query : String) (filters : Filters) (m : MemoryStore) : Except Fault Page :=
  let hits := m.hits query filters
  match filters.effectiveLimit with
  | none => do return ⟨← hits.mapM StoredAsset.decode, false⟩
  | some limit => do
    return ⟨← (hits.take limit).mapM StoredAsset.decode, limit < hits.length⟩

/-- The edges that touch an asset, in their order. -/
def edgesOf (id : String) (m : MemoryStore) : List Edge :=
  Edge.sorted (m.edges.filter (·.touches id))

/-- The last errors of a platform. -/
def recentErrors (platform : String) (limit : Nat) (m : MemoryStore) : List LoggedError :=
  (m.errors.reverse.filter (·.platform = platform)).take limit

/-- What keeps the assets. -/
def engine : Engine := ⟨"memory", "0.1.0", "in-process"⟩

/-- A report on the health of the store. -/
def health (m : MemoryStore) : Health :=
  .connected engine m.assets.length
    (((StoredEntry.newestFirst m.ledger).take recentExtractionsLimit).map
      fun s => RecentExtraction.ofEntry s.entry)

instance : Backend MemoryStore where
  change now c m := (.ok (), m.change now c)
  asset? id m := (m.asset? id, m)
  search query filters m := (m.search query filters, m)
  ledger? platform m := (.ok (m.entry? platform), m)
  edges id m := (.ok (m.edgesOf id), m)
  recentErrors platform limit m := (.ok (m.recentErrors platform limit), m)
  health m := (m.health, m)
  isConnected m := (true, m)

end MemoryStore

end ContentGraph
