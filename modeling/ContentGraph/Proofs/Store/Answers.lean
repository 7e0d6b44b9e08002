import ContentGraph.Proofs.Except
import ContentGraph.Proofs.Store.Mirror

/-!
# Questions to a mirrored store

A store in memory and a database that mirrors it answer every question alike. A search of the
database reads one row more than the page holds, which tells whether there are more; since every
stored text can be read, that row does no harm. Queries count rows in signed words, so the answers
to huge limits agree as long as there are fewer rows than a signed word counts.
-/

namespace ContentGraph.Store

open List (Forall₂)

variable {now : Millis} {m : MemoryStore} {d : Database}

/-! ## Assets -/

/-- A stored asset and its row hold one asset. -/
theorem MirrorsAsset.decode {s : StoredAsset} {r : AssetRow} (h : MirrorsAsset s r) :
    ∃ a, s.decode = .ok a ∧ r.decode = .ok a := by
  obtain ⟨metadata, hm⟩ := Option.isSome_iff_exists.1 h.readable
  refine ⟨{ s.asset with metadata }, ?_, ?_⟩
  · unfold StoredAsset.decode
    rw [hm]
  · unfold AssetRow.decode AssetRow.shownType
    rw [h.metadata, hm, h.type, AssetType.ofName?_name, h.id, h.title, h.content, h.source]
    rfl

theorem Mirrors.asset? (h : Mirrors now m d) (id : String) :
    ∃ asset, m.asset? id = .ok asset ∧ d.asset? id = .ok asset := by
  obtain ⟨rows, hrows, hal⟩ := h.assets
  have hfind := hal.find? (p := fun s => decide (s.asset.id = id))
    (q := fun r => decide (r.id = id)) fun s r hsr => by rw [hsr.id]
  unfold MemoryStore.asset?
  rcases hfind with ⟨hs, hr⟩ | ⟨s, r, hs, hr, hsr⟩
  · rw [hs, Database.asset?_of_none hrows hr]
    exact ⟨none, rfl, rfl⟩
  · obtain ⟨a, hsa, hra⟩ := hsr.decode
    rw [hs, Database.asset?_of_some hrows hr, hra]
    simp only [hsa]
    exact ⟨some a, rfl, rfl⟩

/-! ## Searches -/

/-- Different types are written differently. -/
theorem name_beq_name (t u : AssetType) : (t.name == u.name) = (t == u) := by
  cases t <;> cases u <;> decide

/-- A search picks a row exactly when it picks the asset that is written in it. -/
theorem isFound_eq {r : AssetRow} {a : Asset} (htitle : r.title = a.title)
    (hcontent : r.content = a.content) (htype : r.type = a.type.name) (hsource : r.source = a.source)
    (query : String) (filters : Filters) :
    r.isFound query filters = (a.mentions query && filters.admits a) := by
  -- the empty text, for which no clause is built, is contained in every title
  have hempty : query.isEmpty = true → Text.contains query.toList a.title.toList = true := by
    intro hq
    rw [String.isEmpty_iff.1 hq]
    exact Text.contains_nil_left _
  unfold AssetRow.isFound Asset.mentions Filters.admits
  rw [htitle, hcontent, hsource, htype]
  simp only [name_beq_name]
  cases hq : query.isEmpty with
  | true => simp [hempty hq]
  | false => simp [Bool.and_assoc]

/-- A search picks a stored asset exactly when it picks its row. -/
theorem MirrorsAsset.isFound {s : StoredAsset} {r : AssetRow} (h : MirrorsAsset s r)
    (query : String) (filters : Filters) :
    (s.asset.mentions query && filters.admits s.asset) = r.isFound query filters :=
  (isFound_eq h.title h.content h.type h.source query filters).symm

/-- Corresponding lists of stored assets and rows hold the same assets. -/
theorem decodeAll {stored : List StoredAsset} {rows : List AssetRow}
    (h : Forall₂ MirrorsAsset stored rows) :
    ∃ assets, Forall₂ (fun s a => s.decode = .ok a) stored assets
      ∧ Forall₂ (fun r a => r.decode = .ok a) rows assets := by
  induction h with
  | nil => exact ⟨[], .nil, .nil⟩
  | cons hsr _ ih =>
      obtain ⟨assets, hs, hr⟩ := ih
      obtain ⟨a, hsa, hra⟩ := hsr.decode
      exact ⟨a :: assets, .cons hsa hs, .cons hra hr⟩

theorem forall₂_limitRows {α β : Type} {R : α → β → Prop} {xs : List α} {ys : List β}
    (h : Forall₂ R xs ys) (count : Int) :
    Forall₂ R (limitRows count xs) (limitRows count ys) := by
  unfold limitRows
  split
  · exact h
  · exact List.forall₂_take _ h

/-- One row more than the page holds is fetched, unless there are more rows than a signed word
counts. -/
theorem limitRows_fetchCount {α : Type} {rows : List α} (hlen : rows.length < Word.count 63)
    (limit : Nat) : limitRows (fetchCount limit) rows = rows.take (limit + 1) := by
  have hcount := Word.count_63
  have hnat : fetchCount limit = ((min (limit + 1) (Word.count 63 - 1) : Nat) : Int) := by
    unfold fetchCount maxRowCount
    split <;> omega
  unfold limitRows
  rw [hnat, if_neg (by omega), Int.toNat_natCast]
  -- from the greatest signed word on, both sides take all rows
  rcases Nat.lt_or_ge limit (Word.count 63 - 1) with hlt | hge
  · rw [Nat.min_eq_left (by omega)]
  · rw [List.take_of_length_le (by omega), List.take_of_length_le (by omega)]

/-- The row behind the page tells whether there are more. -/
theorem take_fetchCount {α : Type} (items : List α) (limit : Nat)
    (hlen : items.length < Word.count 63) :
    (limitRows (fetchCount limit) items).take limit = items.take limit
      ∧ decide (limit < (limitRows (fetchCount limit) items).length)
        = decide (limit < items.length) := by
  rw [limitRows_fetchCount hlen]
  constructor
  · rw [List.take_take, Nat.min_eq_left (Nat.le_succ limit)]
  · rw [List.length_take]
    exact decide_eq_decide.2 (by omega)

theorem Mirrors.search (h : Mirrors now m d) (query : String) (filters : Filters)
    (hlen : m.assets.length < Word.count 63) :
    ∃ page, m.search query filters = .ok page ∧ d.search query filters = .ok page := by
  obtain ⟨rows, hrows, hal⟩ := h.assets
  have hfound := hal.filter (p := fun s => s.asset.mentions query && filters.admits s.asset)
    (q := fun r => r.isFound query filters) fun s r hsr => hsr.isFound query filters
  have hhits : d.hits query filters
      = .ok (AssetRow.newestFirst (rows.filter (AssetRow.isFound query filters))) := by
    unfold Database.hits
    rw [hrows]
    rfl
  have hnewest : Forall₂ MirrorsAsset (m.hits query filters)
      (AssetRow.newestFirst (rows.filter (AssetRow.isFound query filters))) := hfound.newest
  obtain ⟨assets, hstored, hread⟩ := decodeAll hnewest
  have hcount : (m.hits query filters).length < Word.count 63 := by
    refine Nat.lt_of_le_of_lt ?_ hlen
    unfold MemoryStore.hits StoredAsset.newestFirst
    rw [List.length_mergeSort]
    exact List.length_filter_le _ _
  have hsame : (m.hits query filters).length = assets.length := hstored.length_eq
  unfold Database.search MemoryStore.search
  rw [hhits]
  -- what was found is sorted already, and how does not matter any more
  generalize m.hits query filters = found at *
  generalize AssetRow.newestFirst (rows.filter (AssetRow.isFound query filters)) = rowsFound at *
  cases filters.effectiveLimit with
  | none =>
      refine ⟨⟨assets, false⟩, ?_, ?_⟩
      · simp only [Except.mapM_of_forall₂ hstored]
        rfl
      · simp only [Except.mapM_of_forall₂ hread, bind, Except.bind]
        rfl
  | some limit =>
      -- one row more than the page is fetched and decoded, and only counted
      have hlength : assets.length < Word.count 63 := by omega
      obtain ⟨htake, hmore⟩ := take_fetchCount assets limit hlength
      have hpage := Except.mapM_of_forall₂ (forall₂_limitRows hread (fetchCount limit))
      have hfirst := Except.mapM_of_forall₂ (List.forall₂_take limit hstored)
      refine ⟨⟨assets.take limit, limit < assets.length⟩, ?_, ?_⟩
      · simp only [hfirst, hsame]
        rfl
      · simp only [hpage, bind, Except.bind, htake, hmore]
        rfl

/-! ## Ledger, edges and errors -/

theorem Mirrors.ledger? (h : Mirrors now m d) (platform : String) :
    d.ledger? platform = .ok (m.entry? platform) := by
  obtain ⟨rows, hrows, hfind⟩ := h.findEntry platform
  rcases hfind with ⟨hm, hd⟩ | ⟨s, r, hm, hd, hsr⟩
  · rw [hm, Database.ledger?_of_none hrows hd]
  · rw [hm, Database.ledger?_of_some hrows hd, hsr.decode]
    rfl

theorem Mirrors.edgesOf (h : Mirrors now m d) (id : String) :
    d.edgesOf id = .ok (m.edgesOf id) := by
  unfold Database.edgesOf
  rw [h.edges]
  rfl

/-- A limit beyond the signed words asks for all errors; there are never so many. -/
theorem Mirrors.recentErrors (h : Mirrors now m d) (platform : String) {limit : Nat}
    (hlimit : limit < Word.count 64) (hlen : m.errors.length < Word.count 63) :
    d.recentErrors platform limit = .ok (m.recentErrors platform limit) := by
  have h63 := Word.count_63
  have h64 := Word.count_64
  have hcount : (m.errors.reverse.filter (·.platform = platform)).length < Word.count 63 := by
    refine Nat.lt_of_le_of_lt (List.length_filter_le _ _) ?_
    rwa [List.length_reverse]
  have hrows : limitRows (Int.bmod limit (Word.count 64))
      (m.errors.reverse.filter (·.platform = platform))
        = (m.errors.reverse.filter (·.platform = platform)).take limit := by
    unfold limitRows
    rcases Nat.lt_or_ge limit (Word.count 63) with hlt | hge
    · have hmod : Int.bmod limit (Word.count 64) = limit :=
        Int.bmod_eq_of_le (by omega) (by omega)
      rw [hmod, if_neg (by omega), Int.toNat_natCast]
    · -- the limit wraps around to a negative number, which is no limit
      have hneg : Int.bmod limit (Word.count 64) < 0 := by
        rw [h64, Int.bmod_eq_emod]
        split <;> omega
      rw [if_pos hneg, List.take_of_length_le (by omega)]
  unfold Database.recentErrors
  rw [h.errors]
  show Except.ok (limitRows (Int.bmod limit (Word.count 64)) _) = _
  rw [hrows]
  rfl

/-! ## Health -/

/-- A report that does not tell what keeps the assets. -/
def withoutEngine : Health → Health
  | .connected _ assets recent => .connected ⟨"", "", ""⟩ assets recent
  | .disconnected error => .disconnected error

theorem Mirrors.health (h : Mirrors now m d) :
    ∃ report, d.health = .ok report ∧ withoutEngine report = withoutEngine m.health := by
  obtain ⟨rows, hrows, hal⟩ := h.assets
  obtain ⟨entries, hentries, hentry⟩ := h.ledger
  have hrecent : ((StoredEntry.newestFirst m.ledger).take recentExtractionsLimit).map
      (fun s => RecentExtraction.ofEntry s.entry)
        = ((LedgerRow.newestFirst entries).take recentExtractionsLimit).map LedgerRow.recent := by
    have hnewest : Forall₂ MirrorsEntry (StoredEntry.newestFirst m.ledger)
      (LedgerRow.newestFirst entries) := hentry.newest
    refine List.forall₂_eq_eq_eq ▸ ?_
    refine List.rel_map (fun s r hsr => ?_) (List.forall₂_take recentExtractionsLimit hnewest)
    unfold LedgerRow.recent
    rw [hsr.fields?, hsr.platform, hsr.updatedAt]
    rfl
  refine ⟨.connected Database.engine rows.length
    (((LedgerRow.newestFirst entries).take recentExtractionsLimit).map LedgerRow.recent), ?_, ?_⟩
  · unfold Database.health
    rw [hrows, hentries]
    rfl
  · unfold MemoryStore.health withoutEngine
    rw [hrecent, hal.length_eq]

end ContentGraph.Store
