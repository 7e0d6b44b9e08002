import ContentGraph.Proofs.Asset.Blob
import ContentGraph.Proofs.Store.Order
import ContentGraph.Proofs.Store.Statement
import ContentGraph.Store.Memory

/-!
# A database that mirrors a store in memory

A database *mirrors* a store in memory when its tables hold the same things, written in the same
order (`Mirrors`). Every change whose metadata and fields fit succeeds on both sides and leaves
the one mirroring the other (`Mirrors.change`); every question is then answered alike
(`Mirrors.asset?` to `Mirrors.health`). The bounds on the numbers of rows are those of the signed
words that a query counts with.
-/

namespace ContentGraph.Store

open List (Forall₂)

/-! ## Rows and what they mirror -/

/-- A row that holds a stored asset, of which the metadata can be read. -/
structure MirrorsAsset (s : StoredAsset) (r : AssetRow) : Prop where
  id : r.id = s.asset.id
  title : r.title = s.asset.title
  content : r.content = s.asset.content
  type : r.type = s.asset.type.name
  source : r.source = s.asset.source
  metadata : r.metadata = s.blob
  readable : (Metadata.ofBlob? s.blob).isSome = true

/-- A row that holds a stored ledger entry as text. -/
structure MirrorsEntry (s : StoredEntry) (r : LedgerRow) : Prop where
  platform : r.platform = s.entry.platform
  fields : r.fields = (Json.object s.entry.fields).render
  updatedAt : r.updatedAt = s.entry.updatedAt
  fits : Json.Fits Json.maxNesting (.object s.entry.fields)

/-- The place of a row in the order of rows. -/
def assetKey (r : AssetRow) : Int × Nat := (r.updatedAt, r.revision)

/-- The place of a ledger row in the order of rows. -/
def ledgerKey (r : LedgerRow) : Int × Nat := (r.updatedAt, r.revision)

/-- A database with all tables, which holds what a store in memory holds. No row was written
after `now`. -/
structure Mirrors (now : Millis) (m : MemoryStore) (d : Database) : Prop where
  assets : ∃ rows, d.assets = some rows ∧
    Aligned StoredAsset.revision assetKey MirrorsAsset now m.revision m.assets rows
  edges : d.edges = some m.edges
  ledger : ∃ rows, d.ledger = some rows ∧
    Aligned StoredEntry.revision ledgerKey MirrorsEntry now m.revision m.ledger rows
  errors : d.errors = some m.errors

/-- Empty tables mirror the empty store. -/
theorem mirrors_empty (now : Millis) : Mirrors now {} (Database.createTables {}) where
  assets := ⟨[], rfl, .nil⟩
  edges := rfl
  ledger := ⟨[], rfl, .nil⟩
  errors := rfl

/-- A database that mirrors a store has all its tables. -/
theorem Mirrors.createTables {now : Millis} {m : MemoryStore} {d : Database}
    (h : Mirrors now m d) : d.createTables = d := by
  obtain ⟨⟨rows, hrows, _⟩, hedges, ⟨entries, hentries, _⟩, herrors⟩ := h
  obtain ⟨assets, edges, ledger, errors⟩ := d
  subst hrows hedges hentries herrors
  rfl

/-! ## Changes -/

/-- Changes whose texts can be read back: metadata and fields fit. -/
def Change.Fits : Change → Prop
  | .ingest a => a.metadata.Fits
  | .record _ fields => Json.Fits Json.maxNesting (.object fields)
  | _ => True

variable {now t : Millis} {m : MemoryStore} {d : Database}

/-- The row of an asset that is written holds what memory stores of it. -/
theorem mirrorsAsset_ofAsset {a : Asset} (h : a.metadata.Fits) (now : Millis)
    (count revision : Nat) :
    MirrorsAsset (.ofAsset now count a) (.ofAsset now revision a) where
  id := rfl
  title := rfl
  content := rfl
  type := rfl
  source := rfl
  metadata := rfl
  readable := by
    show (Metadata.ofBlob? (a.metadata.toBlob a.source now.iso)).isSome = true
    rw [Metadata.ofBlob?_toBlob h]
    rfl

theorem Mirrors.ingest (h : Mirrors t m d) (ht : t ≤ now) {a : Asset} (ha : a.metadata.Fits) :
    ∃ d', Database.ingest now a d = (.ok (), d') ∧ Mirrors now (m.ingest now a) d' := by
  obtain ⟨⟨rows, hrows, hal⟩, hedges, ⟨entries, hentries, hentry⟩, herrors⟩ := h
  refine ⟨_, Database.onAssets_eq hrows _, ⟨_, rfl, ?_⟩, hedges,
    ⟨entries, hentries, hentry.mono ht (Nat.le_succ _)⟩, herrors⟩
  have hkept := hal.filter (p := fun s => decide (s.asset.id ≠ a.id))
    (q := fun r => decide (r.id ≠ a.id)) fun s r hsr => by rw [hsr.id]
  refine hkept.snoc (mirrorsAsset_ofAsset ha now _ _) rfl rfl ht fun r hr => ?_
  exact lt_nextRevision (List.mem_map_of_mem (List.mem_of_mem_filter hr))

theorem Mirrors.remove (h : Mirrors t m d) (ht : t ≤ now) (id : String) :
    ∃ d', Database.remove id d = (.ok (), d') ∧ Mirrors now (m.remove id) d' := by
  obtain ⟨⟨rows, hrows, hal⟩, hedges, ⟨entries, hentries, hentry⟩, herrors⟩ := h
  have hkept := hal.filter (p := fun s => decide (s.asset.id ≠ id))
    (q := fun r => decide (r.id ≠ id)) fun s r hsr => by rw [hsr.id]
  exact ⟨_, Database.remove_eq hrows hedges id, ⟨_, rfl, hkept.mono ht (Nat.le_refl _)⟩, rfl,
    ⟨entries, hentries, hentry.mono ht (Nat.le_refl _)⟩, herrors⟩

/-- The fields of a mirrored row are read as they were written. -/
theorem MirrorsEntry.fields? {s : StoredEntry} {r : LedgerRow} (h : MirrorsEntry s r) :
    r.fields? = some s.entry.fields := by
  unfold LedgerRow.fields?
  rw [h.fields, Json.parse?_render h.fits]

/-- A mirrored row holds the entry. -/
theorem MirrorsEntry.decode {s : StoredEntry} {r : LedgerRow} (h : MirrorsEntry s r) :
    r.decode = .ok s.entry := by
  unfold LedgerRow.decode
  rw [h.fields?, h.platform, h.updatedAt]

/-- The ledger entry of a platform is found on both sides, or on neither. -/
theorem Mirrors.findEntry (h : Mirrors t m d) (platform : String) :
    ∃ rows, d.ledger = some rows ∧
      ((m.entry? platform = none ∧ rows.find? (·.platform = platform) = none)
        ∨ ∃ s r, m.entry? platform = some s.entry
          ∧ rows.find? (·.platform = platform) = some r ∧ MirrorsEntry s r) := by
  obtain ⟨rows, hrows, hal⟩ := h.ledger
  refine ⟨rows, hrows, ?_⟩
  have hfind := hal.find? (p := fun s => decide (s.entry.platform = platform))
    (q := fun r => decide (r.platform = platform)) fun s r hsr => by rw [hsr.platform]
  unfold MemoryStore.entry?
  rcases hfind with ⟨hs, hr⟩ | ⟨s, r, hs, hr, hsr⟩
  · exact .inl ⟨by rw [hs]; rfl, hr⟩
  · exact .inr ⟨s, r, by rw [hs]; rfl, hr, hsr⟩

/-- The old fields of a platform's ledger are read back, and they fit. -/
theorem Mirrors.selectFields (h : Mirrors t m d) (platform : String) :
    (Database.selectFields platform d).1
        = .ok (((m.entry? platform).map (·.fields)).getD [])
      ∧ Json.Fits Json.maxNesting
        (.object (((m.entry? platform).map (·.fields)).getD [])) := by
  obtain ⟨rows, hrows, ⟨hm, hd⟩ | ⟨s, r, hm, hd, hsr⟩⟩ := h.findEntry platform
  · rw [hm]
    refine ⟨?_, Json.fits_empty _⟩
    rw [Database.selectFields_eq hrows, hd]
    rfl
  · rw [hm]
    refine ⟨?_, hsr.fits⟩
    rw [Database.selectFields_eq hrows, hd]
    simp only [hsr.decode]
    rfl

/-- Setting fields that fit in fields that fit gives fields that fit. -/
theorem fits_merge {room : Nat} {old new : Fields} (hold : Json.Fits (room + 1) (.object old))
    (hnew : Json.Fits (room + 1) (.object new)) :
    Json.Fits (room + 1) (.object (LedgerEntry.merge old new)) := by
  have hvalues : ∀ p ∈ new, Json.Fits room p.2 := by
    cases hnew with
    | object _ h => exact h
  clear hnew
  unfold LedgerEntry.merge
  induction new generalizing old with
  | nil => exact hold
  | cons p new ih =>
      rw [List.foldl_cons]
      refine ih ?_ fun q hq => hvalues q (List.mem_cons_of_mem _ hq)
      split
      · -- a reserved key is passed over
        exact hold
      · exact hold.insert (hvalues p List.mem_cons_self) p.1

theorem Mirrors.record (h : Mirrors t m d) (ht : t ≤ now) (platform : String) {fields : Fields}
    (hf : Json.Fits Json.maxNesting (.object fields)) :
    ∃ d', Database.record now platform fields d = (.ok (), d')
      ∧ Mirrors now (m.record now platform fields) d' := by
  obtain ⟨hselect, hfits⟩ := h.selectFields platform
  obtain ⟨⟨rows, hrows, hal⟩, hedges, ⟨entries, hentries, hentry⟩, herrors⟩ := h
  -- the count in memory goes on for both lists, so the assets are aligned with a later one
  refine ⟨_, Database.record_eq hentries hselect now fields,
    ⟨rows, hrows, hal.mono ht (Nat.le_succ _)⟩, hedges, ⟨_, rfl, ?_⟩, herrors⟩
  have hkept := hentry.filter (p := fun s => decide (s.entry.platform ≠ platform))
    (q := fun r => decide (r.platform ≠ platform)) fun s r hsr => by rw [hsr.platform]
  refine hkept.snoc ⟨rfl, rfl, rfl, fits_merge hfits hf⟩ rfl rfl ht fun r hr => ?_
  exact lt_nextRevision (List.mem_map_of_mem (List.mem_of_mem_filter hr))

theorem Mirrors.mono (h : Mirrors t m d) (ht : t ≤ now) : Mirrors now m d := by
  obtain ⟨⟨rows, hrows, hal⟩, hedges, ⟨entries, hentries, hentry⟩, herrors⟩ := h
  exact ⟨⟨rows, hrows, hal.mono ht (Nat.le_refl _)⟩, hedges,
    ⟨entries, hentries, hentry.mono ht (Nat.le_refl _)⟩, herrors⟩

/-- Statements on edges and errors leave the other tables alone. -/
theorem Mirrors.withEdges (h : Mirrors now m d) (edges : List Edge) :
    Mirrors now { m with edges } { d with edges := some edges } :=
  ⟨h.assets, rfl, h.ledger, h.errors⟩

theorem Mirrors.withErrors (h : Mirrors now m d) (errors : List LoggedError) :
    Mirrors now { m with errors } { d with errors := some errors } :=
  ⟨h.assets, h.edges, h.ledger, rfl⟩

/-- **Changes.** A change that fits succeeds, and the database mirrors the store again. -/
theorem Mirrors.change (h : Mirrors t m d) (ht : t ≤ now) {c : Change} (hc : c.Fits) :
    ∃ d', Database.change now c d = (.ok (), d') ∧ Mirrors now (m.change now c) d' := by
  cases c with
  | ingest a => exact h.ingest ht hc
  | remove id => exact h.remove ht id
  | record platform fields => exact h.record ht platform hc
  | relate e =>
      refine ⟨_, Database.onEdges_eq h.edges _, ?_⟩
      -- an edge that is there is left alone on both sides
      show Mirrors now (m.relate e) _
      rw [MemoryStore.relate_eq]
      exact (h.mono ht).withEdges _
  | clear origin kind =>
      exact ⟨_, Database.onEdges_eq h.edges _, (h.mono ht).withEdges _⟩
  | logError platform message =>
      exact ⟨_, Database.onErrors_eq h.errors _, (h.mono ht).withErrors _⟩

end ContentGraph.Store
