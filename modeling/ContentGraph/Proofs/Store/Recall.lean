import ContentGraph.Proofs.Store.History
import ContentGraph.Proofs.Store.Order
import ContentGraph.Proofs.Store.Views

/-!
# What a store recalls of its history

A store in memory keeps in its lists what stands after the changes that were made of it, assets and
ledgers numbered as they were written (`Recalls`). Each change keeps that, and a question leaves the
store as it was. Main statement: after any history a store obeys the law (`obeys_history`).
-/

namespace ContentGraph

open Store (Change)

/-! ## What a store recalls -/

/-- Entries that were numbered as they were written, up to the last number. -/
structure Numbered {α : Type} (number : α → Nat) (last : Nat) (xs : List α) : Prop where
  increasing : xs.Pairwise fun x y => number x < number y
  bounded : ∀ x ∈ xs, number x ≤ last

namespace Numbered

variable {α : Type} {number : α → Nat} {last last' : Nat} {xs : List α}

theorem nil : Numbered number last [] where
  increasing := .nil
  bounded := fun _ h => absurd h List.not_mem_nil

theorem filter (h : Numbered number last xs) (p : α → Bool) :
    Numbered number last (xs.filter p) where
  increasing := h.increasing.filter p
  bounded := fun x hx => h.bounded x (List.mem_of_mem_filter hx)

theorem mono (h : Numbered number last xs) (hle : last ≤ last') : Numbered number last' xs where
  increasing := h.increasing
  bounded := fun x hx => Nat.le_trans (h.bounded x hx) hle

theorem append (h : Numbered number last xs) {x : α} (hx : number x = last + 1) :
    Numbered number (last + 1) (xs ++ [x]) where
  increasing := by
    refine List.pairwise_append.2 ⟨h.increasing, List.pairwise_singleton _ _, fun y hy z hz => ?_⟩
    rw [List.mem_singleton.1 hz, hx]
    exact Nat.lt_succ_of_le (h.bounded y hy)
  bounded := by
    intro y hy
    rcases List.mem_append.1 hy with hy | hy
    · exact Nat.le_succ_of_le (h.bounded y hy)
    · exact Nat.le_of_eq (List.mem_singleton.1 hy ▸ hx)

/-- Sorted with the newest first, they are turned around. -/
theorem newest (h : Numbered number last xs) :
    xs.mergeSort (fun x y => decide (number y ≤ number x)) = xs.reverse := by
  refine Store.mergeSort_eq_reverse ?_ ?_ (h.increasing.imp fun hxy => ?_)
  · intro x y z hxy hyz
    rw [decide_eq_true_eq] at *
    omega
  · intro x y
    rw [Bool.or_eq_true, decide_eq_true_eq, decide_eq_true_eq]
    omega
  · rw [decide_eq_false_iff_not]
    omega

end Numbered

/-! Two lists that tell the same, each in its way, tell the same of what is picked from them. -/

section Picked

variable {α β γ : Type} {f : α → γ} {g : β → γ} {xs : List α} {ys : List β}

theorem map_filter_eq (h : xs.map f = ys.map g) (p : γ → Bool) :
    (xs.filter fun x => p (f x)).map f = (ys.filter fun y => p (g y)).map g := by
  have := congrArg (List.filter p) h
  rwa [List.filter_map, List.filter_map] at this

theorem map_find?_eq (h : xs.map f = ys.map g) (p : γ → Bool) :
    (xs.find? fun x => p (f x)).map f = (ys.find? fun y => p (g y)).map g := by
  have := congrArg (List.find? p) h
  rwa [List.find?_map, List.find?_map] at this

end Picked

/-- A stored asset without its revision. -/
def StoredAsset.unnumbered (s : StoredAsset) : StoredAsset := { s with revision := 0 }

/-- What is stored of an asset that was ingested, without its revision. -/
def toStored (p : Millis × Asset) : StoredAsset := .ofAsset p.1 0 p.2

/-- The ledger entry of a platform that was updated. -/
def toEntry (L : List (Millis × Change)) (p : Millis × String) : LedgerEntry :=
  ⟨p.2, settled (givenFields p.2 L), p.1⟩

/-- What is not given to a platform leaves its entry. -/
theorem toEntry_append {L : List (Millis × Change)} {x : Millis × Change} {p : Millis × String}
    (h : givenFields p.2 [x] = []) : toEntry (L ++ [x]) p = toEntry L p := by
  unfold toEntry
  rw [givenFields_append, h, List.append_nil]

namespace MemoryStore

/-- The assets of a store are the live ones. -/
structure RecallsAssets (L : List (Millis × Change)) (m : MemoryStore) : Prop where
  same : m.assets.map StoredAsset.unnumbered = (liveAssets L).map toStored
  numbered : Numbered StoredAsset.revision m.revision m.assets

/-- The ledger of a store is that of the updated platforms. -/
structure RecallsLedger (L : List (Millis × Change)) (m : MemoryStore) : Prop where
  same : m.ledger.map (·.entry) = (updatedPlatforms L).map (toEntry L)
  numbered : Numbered StoredEntry.revision m.revision m.ledger

/-- The edges of a store are those that stand, each once. -/
structure RecallsEdges (L : List (Millis × Change)) (m : MemoryStore) : Prop where
  nodup : m.edges.Nodup
  mem_iff : ∀ e, e ∈ m.edges ↔ e ∈ standingEdges L

variable {L : List (Millis × Change)} {m : MemoryStore}

/-- A change never lowers the revision. -/
theorem le_revision_change (now : Millis) (c : Change) (m : MemoryStore) :
    m.revision ≤ (m.change now c).revision := by
  cases c with
  | ingest a => exact Nat.le_succ _
  | record platform fields => exact Nat.le_succ _
  | relate e =>
      show m.revision ≤ (m.relate e).revision
      rw [relate_eq]
  | _ => exact Nat.le_refl _

theorem RecallsAssets.change (h : RecallsAssets L m) (now : Millis) (c : Change) :
    RecallsAssets (L ++ [(now, c)]) (m.change now c) := by
  constructor
  · rw [liveAssets_append]
    cases c with
    | ingest a =>
        show (m.assets.filter _ ++ [_]).map _ = _
        rw [List.map_append, List.map_append]
        congr 1
        exact map_filter_eq h.same fun s => decide (s.asset.id ≠ a.id)
    | remove id => exact map_filter_eq h.same fun s => decide (s.asset.id ≠ id)
    | relate e =>
        show (m.relate e).assets.map _ = _
        rw [relate_eq]
        exact h.same
    | _ => exact h.same
  · cases c with
    | ingest a => exact (h.numbered.filter _).append rfl
    | remove id => exact h.numbered.filter _
    | relate e =>
        show Numbered _ (m.relate e).revision (m.relate e).assets
        rw [relate_eq]
        exact h.numbered
    | _ => exact h.numbered.mono (le_revision_change now _ m)

/-- The ledger of a platform is that of its last update. -/
theorem RecallsLedger.entry?_eq (h : RecallsLedger L m) (platform : String) :
    m.entry? platform
      = ((updatedPlatforms L).find? fun p => decide (p.2 = platform)).map (toEntry L) :=
  map_find?_eq h.same fun e => decide (e.platform = platform)

/-- A platform without a ledger was given nothing. -/
theorem RecallsLedger.fields_eq (h : RecallsLedger L m) (platform : String) :
    ((m.entry? platform).map (·.fields)).getD [] = settled (givenFields platform L) := by
  rw [h.entry?_eq]
  cases hfind : (updatedPlatforms L).find? fun p => decide (p.2 = platform) with
  | none =>
      rw [givenFields_eq_nil fun p hp hplatform =>
        List.find?_eq_none.1 hfind p hp (decide_eq_true hplatform)]
      rfl
  | some p =>
      have hp : p.2 = platform := by simpa using List.find?_some hfind
      rw [← hp]
      rfl

theorem RecallsLedger.change (h : RecallsLedger L m) (now : Millis) (c : Change) :
    RecallsLedger (L ++ [(now, c)]) (m.change now c) := by
  constructor
  · rw [updatedPlatforms_append]
    cases c with
    | record platform fields =>
        show (m.ledger.filter _ ++ [_]).map _ = _
        rw [List.map_append, List.map_append]
        congr 1
        · rw [map_filter_eq h.same fun e => decide (e.platform ≠ platform)]
          refine List.map_congr_left fun p hp => ?_
          -- the other platforms were given nothing more
          have hne : p.2 ≠ platform := of_decide_eq_true (List.mem_filter.1 hp).2
          exact (toEntry_append (by simp [givenFields, hne.symm])).symm
        · show [LedgerEntry.mk platform (LedgerEntry.merge _ fields) now] = [toEntry _ (now, platform)]
          rw [h.fields_eq, LedgerEntry.merge_settled]
          unfold toEntry
          rw [givenFields_append]
          simp [givenFields]
    | relate e =>
        show (m.relate e).ledger.map _ = _
        rw [relate_eq]
        exact h.same.trans (List.map_congr_left fun p _ => (toEntry_append rfl).symm)
    | _ => exact h.same.trans (List.map_congr_left fun p _ => (toEntry_append rfl).symm)
  · cases c with
    | record platform fields => exact (h.numbered.filter _).append rfl
    | relate e =>
        show Numbered _ (m.relate e).revision (m.relate e).ledger
        rw [relate_eq]
        exact h.numbered
    | _ => exact h.numbered.mono (le_revision_change now _ m)

theorem RecallsEdges.change (h : RecallsEdges L m) (now : Millis) (c : Change) :
    RecallsEdges (L ++ [(now, c)]) (m.change now c) := by
  constructor
  · cases c with
    | relate e =>
        show (m.relate e).edges.Nodup
        rw [relate_eq]
        by_cases he : e ∈ m.edges
        · simpa only [if_pos he] using h.nodup
        · simp only [if_neg he]
          refine List.nodup_append.2 ⟨h.nodup, List.nodup_cons.2 ⟨List.not_mem_nil, .nil⟩, ?_⟩
          intro a ha b hb hab
          exact he (List.mem_singleton.1 hb ▸ hab ▸ ha)
    | remove id => exact h.nodup.filter _
    | clear origin kind => exact h.nodup.filter _
    | _ => exact h.nodup
  · intro e
    rw [standingEdges_append]
    cases c with
    | relate e' =>
        show e ∈ (m.relate e').edges ↔ _
        rw [relate_eq, List.mem_append, ← h.mem_iff, List.mem_singleton]
        by_cases he : e' ∈ m.edges
        · simp only [if_pos he]
          exact ⟨.inl, fun h => h.elim id fun heq => heq ▸ he⟩
        · simp only [if_neg he, List.mem_append, List.mem_singleton]
    | remove id =>
        show e ∈ m.edges.filter _ ↔ _
        rw [List.mem_filter, List.mem_filter, h.mem_iff]
    | clear origin kind =>
        show e ∈ m.edges.filter _ ↔ _
        rw [List.mem_filter, List.mem_filter, h.mem_iff]
    | _ => exact h.mem_iff e

/-- What a store recalls of the changes that were made of it. -/
structure Recalls (L : List (Millis × Change)) (m : MemoryStore) : Prop where
  assets : RecallsAssets L m
  ledger : RecallsLedger L m
  edges : RecallsEdges L m
  errors : m.errors = L.filterMap logged?

theorem Recalls.empty : Recalls [] {} where
  assets := ⟨rfl, .nil⟩
  ledger := ⟨rfl, .nil⟩
  edges := ⟨.nil, fun _ => .rfl⟩
  errors := rfl

theorem Recalls.change (h : Recalls L m) (now : Millis) (c : Change) :
    Recalls (L ++ [(now, c)]) (m.change now c) where
  assets := h.assets.change now c
  ledger := h.ledger.change now c
  edges := h.edges.change now c
  errors := by
    rw [List.filterMap_append, ← h.errors]
    exact (errorView.made rfl).trans (replay_errorEffect [(now, c)] m.errors)

/-- **Histories.** A store recalls the changes that were made of it. -/
theorem recalls_after (h : History) : Recalls h.changes (after h) := by
  induction h using List.reverseRecOn with
  | nil => exact .empty
  | append_singleton h x ih =>
      obtain ⟨now, op⟩ := x
      unfold after History.changes
      rw [List.foldl_append, List.filterMap_append]
      cases op with
      | change c => exact ih.change now c
      | _ =>
          -- a question leaves the store as it was
          show Recalls (History.changes h ++ []) (after h)
          rw [List.append_nil]
          exact ih

/-! ## Answers -/

theorem Recalls.asset?_eq (h : Recalls L m) (id : String) :
    m.asset? id =
      match (liveAssets L).find? (fun p => decide (p.2.id = id)) with
      | some (now, a) => (a.readBack now).map some
      | none => .ok none := by
  have hfind : (m.assets.find? fun s => decide (s.asset.id = id)).map StoredAsset.unnumbered
      = ((liveAssets L).find? fun p => decide (p.2.id = id)).map toStored :=
    map_find?_eq h.assets.same fun s => decide (s.asset.id = id)
  unfold asset?
  cases hs : m.assets.find? fun s => decide (s.asset.id = id) with
  | none =>
      rw [hs] at hfind
      rw [Option.map_eq_none_iff.1 hfind.symm]
  | some s =>
      rw [hs] at hfind
      obtain ⟨p, hp, hsame⟩ := Option.map_eq_some_iff.1 hfind.symm
      rw [hp]
      show s.unnumbered.decode.map some = _
      rw [← hsame]
      rfl

/-- What a search finds are the live assets that answer it, the last one ingested first. -/
theorem Recalls.hits_eq (h : Recalls L m) (query : String) (filters : Filters) :
    (m.hits query filters).map StoredAsset.unnumbered
      = ((liveAssets L).reverse.filter fun p => decide (p.2.Answers query filters)).map
        toStored := by
  have hfilter : (m.assets.filter fun s => s.asset.mentions query && filters.admits s.asset)
      = m.assets.filter fun s => decide (s.unnumbered.asset.Answers query filters) :=
    List.filter_congr fun s _ => Bool.eq_iff_iff.2 (Asset.answers_iff.symm.trans decide_eq_true_iff.symm)
  unfold hits StoredAsset.newestFirst
  rw [(h.assets.numbered.filter _).newest, hfilter, List.filter_reverse, List.map_reverse,
    List.map_reverse]
  congr 1
  exact map_filter_eq h.assets.same fun s => decide (s.asset.Answers query filters)

/-- Stored assets that are the same but for their revisions are read alike. -/
theorem mapM_decode {hits : List StoredAsset} {found : List (Millis × Asset)}
    (h : hits.map StoredAsset.unnumbered = found.map toStored) :
    hits.mapM StoredAsset.decode = found.mapM fun p => p.2.readBack p.1 := by
  have := congrArg (List.mapM StoredAsset.decode) h
  rwa [List.mapM_map, List.mapM_map] at this

theorem Recalls.search_eq (h : Recalls L m) (query : String) (filters : Filters) :
    let found := (liveAssets L).reverse.filter fun p => decide (p.2.Answers query filters)
    m.search query filters = do
      let items ← (filters.page found).mapM fun p => p.2.readBack p.1
      return ⟨items, decide ((filters.page found).length < found.length)⟩ := by
  intro found
  have hhits : (m.hits query filters).map StoredAsset.unnumbered = found.map toStored :=
    h.hits_eq query filters
  have hlength : (m.hits query filters).length = found.length := by
    simpa only [List.length_map] using congrArg List.length hhits
  unfold search
  rw [Filters.page_eq]
  cases filters.effectiveLimit with
  | none =>
      simp only [mapM_decode hhits, Nat.lt_irrefl, decide_false]
  | some limit =>
      have htake : ((m.hits query filters).take limit).map StoredAsset.unnumbered
          = (found.take limit).map toStored := by
        rw [List.map_take, hhits, List.map_take]
      have hmore : decide (limit < (m.hits query filters).length)
          = decide ((found.take limit).length < found.length) := by
        rw [hlength, List.length_take, decide_eq_decide]
        omega
      simp only [mapM_decode htake, hmore]

theorem Recalls.edges_eq (h : Recalls L m) (id : String) :
    (m.edgesOf id).Pairwise Edge.Before
      ∧ ∀ e, e ∈ m.edgesOf id ↔ e ∈ standingEdges L ∧ e.touches id = true := by
  refine ⟨Edge.pairwise_before_sorted (h.edges.nodup.filter _), fun e => ?_⟩
  unfold edgesOf Edge.sorted
  rw [List.mem_mergeSort, List.mem_filter, h.edges.mem_iff]

theorem Recalls.ledger_eq (h : Recalls L m) (platform : String) :
    match (updatedPlatforms L).find? (fun p => decide (p.2 = platform)) with
    | some (now, _) => ∃ fields : Fields, m.entry? platform = some ⟨platform, fields, now⟩
        ∧ fields.Sorted ∧ ∀ key, fields.get? key =
          if key ∈ LedgerEntry.reserved then none else lastGiven? platform key L
    | none => m.entry? platform = none := by
  rw [h.ledger.entry?_eq]
  cases hfind : (updatedPlatforms L).find? fun p => decide (p.2 = platform) with
  | none => rfl
  | some p =>
      obtain ⟨now, q⟩ := p
      have hq : q = platform := by simpa using List.find?_some hfind
      subst hq
      exact ⟨settled (givenFields q L), rfl, Fields.sorted_ofList _, get?_settled _⟩

theorem Recalls.recentErrors_eq (h : Recalls L m) (platform : String) (limit : Nat) :
    m.recentErrors platform limit =
      ((L.filterMap logged?).filter fun e => decide (e.platform = platform)).reverse.take limit := by
  unfold recentErrors
  rw [h.errors, List.filter_reverse]

/-- The last extraction of a platform is the one that was given last. -/
theorem ofEntry_toEntry (L : List (Millis × Change)) (p : Millis × String) :
    RecentExtraction.ofEntry (toEntry L p)
      = ⟨p.2, (lastGiven? p.2 "lastExtraction" L).bind Json.string?, p.1⟩ := by
  unfold RecentExtraction.ofEntry LedgerEntry.lastExtraction? Metadata.textField? toEntry
  rw [get?_settled, if_neg (by decide)]
  rfl

theorem Recalls.health_eq (h : Recalls L m) :
    m.health = .connected engine (liveAssets L).length
      (((updatedPlatforms L).reverse.take 10).map fun p =>
        ⟨p.2, (lastGiven? p.2 "lastExtraction" L).bind Json.string?, p.1⟩) := by
  have hlength : m.assets.length = (liveAssets L).length := by
    simpa only [List.length_map] using congrArg List.length h.assets.same
  have hrecent : (StoredEntry.newestFirst m.ledger).map (·.entry)
      = (updatedPlatforms L).reverse.map (toEntry L) := by
    unfold StoredEntry.newestFirst
    rw [h.ledger.numbered.newest, List.map_reverse, h.ledger.same, List.map_reverse]
  have hreport : ((StoredEntry.newestFirst m.ledger).take recentExtractionsLimit).map
        (fun s => RecentExtraction.ofEntry s.entry)
      = ((updatedPlatforms L).reverse.take 10).map fun p => RecentExtraction.ofEntry (toEntry L p) := by
    have := congrArg (fun entries => (entries.take 10).map RecentExtraction.ofEntry) hrecent
    simpa only [← List.map_take, List.map_map, Function.comp_def, recentExtractionsLimit] using this
  unfold health
  rw [hlength, hreport]
  simp only [ofEntry_toEntry]

/-- Metadata that fits is read back as its stored text reads. -/
theorem readBack_of_fits {now : Millis} {a : Asset} (h : a.metadata.Fits) :
    ∃ metadata, Metadata.ofBlob? (a.metadata.toBlob a.source now.iso) = some metadata
      ∧ a.readBack now = .ok { a with metadata } := by
  have hblob := Metadata.ofBlob?_toBlob h a.source now.iso
  refine ⟨_, hblob, ?_⟩
  unfold Asset.readBack StoredAsset.decode StoredAsset.ofAsset
  simp only [hblob]

/-- **Main statement.** After any history, what a store answers is told by the changes in it: get and
search show the assets that are live, the last one ingested first; edges are those that stand;
ledgers hold what was given last. -/
theorem obeys_history (h : History) : Obeys h.changes (after h) := by
  have hrecalls := recalls_after h
  constructor
  case asset => exact hrecalls.asset?_eq
  case readBack => exact fun p _ hfits => readBack_of_fits hfits
  case search => exact hrecalls.search_eq
  case total =>
    intro query filters page _
    unfold Page.toJson Json.ofFields Json.field?
    simp only [Fields.get?_ofList]
    rfl
  case edges => exact hrecalls.edges_eq
  case ledger => exact hrecalls.ledger_eq
  case errors => exact hrecalls.recentErrors_eq
  case health => exact hrecalls.health_eq

end MemoryStore

end ContentGraph
