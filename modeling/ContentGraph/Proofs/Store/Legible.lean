import ContentGraph.Proofs.Store.Accepted
import ContentGraph.Proofs.Store.LegibleLedger

/-!
# What can be read of what was accepted

A store accepts values of any nesting, and reads texts up to a limit only. So it may accept an asset
that get does not show, and a database a ledger that it neither tells nor updates any more; a store in
memory keeps its ledgers as they are. Nothing else goes wrong: main statement, behind every history of
values that a program can hold, an operation succeeds when all is legible that it may have to read, and
fails, over a text that cannot be read, when it must read something that is not (`answered_behind`).
-/

namespace ContentGraph.Store

/-- Holds for events that store no values but those a program can hold. -/
def Event.Proper : Event → Prop
  | .ask _ (.change c) => c.Proper
  | _ => True

/-! ## What an operation may have to read -/

/-- Holds when all assets are legible that an operation finds. -/
def Operation.FindsLegible (L : List (Millis × Change)) : Operation → Prop
  | .asset id => ∀ p ∈ liveAssets L, p.2.id = id → p.2.metadata.Legible
  | .search query filters =>
    ∀ p ∈ liveAssets L, p.2.Answers query filters → p.2.metadata.Legible
  | _ => True

/-- Holds when the ledger is legible that an operation tells or updates. -/
def Operation.ConsultsLegible (L : List (Millis × Change)) : Operation → Prop
  | .ledger platform => LedgerLegible L platform
  | .change (.record platform _) => LedgerLegible L platform
  | _ => True

/-- Holds for operations that read all that they find; a search for a page reads some of it. -/
def Operation.Whole : Operation → Prop
  | .search _ filters => filters.effectiveLimit = none
  | _ => True

/-- How an operation is answered that may have to read texts. -/
structure Answered {α : Type} (legible whole : Prop) (r : Except Fault α) : Prop where
  /-- Nothing goes wrong but that a text cannot be read. -/
  fault : ∀ e, r = .error e → e = .undecodable
  /-- Where all is legible there is an answer. -/
  given : legible → r.isOk = true
  /-- Where something is not, there is none, unless it need not be read. -/
  missing : whole → ¬legible → r.isOk = false

section Answers

variable {α : Type} {P legible whole : Prop} {r : Except Fault α}

/-- An answer that hinges on less than all that is found. -/
theorem answered_of_hinges (h : Hinges P r) (hgiven : legible → P) (hmissing : whole → P → legible) :
    Answered legible whole r := by
  cases h with
  | given h x =>
      exact ⟨nofun, fun _ => rfl, fun hwhole hlegible => absurd (hmissing hwhole h) hlegible⟩
  | missing h =>
      exact ⟨fun e he => (Except.error.inj he).symm, fun hlegible => absurd (hgiven hlegible) h,
        fun _ _ => rfl⟩

/-- An answer that hinges on all that is found. -/
theorem answered_of_hinges_all (h : Hinges legible r) : Answered legible whole r :=
  answered_of_hinges h (fun h => h) fun _ h => h

end Answers

/-! ## Live assets -/

section Live

variable {L : List (Millis × Change)} (hL : ∀ p ∈ L, p.2.Proper)

include hL

/-- Whether a live asset is read back hinges on its metadata. -/
theorem hinges_readBack {p : Millis × Asset} (hp : p ∈ liveAssets L) :
    Hinges p.2.metadata.Legible (p.2.readBack p.1) := by
  have hproper : p.2.metadata.Proper := hL _ (ingested_of_live hp)
  obtain ⟨hlegible, m', hread, -⟩ | ⟨hdeep, hread⟩ := Asset.readBack_cases hproper p.1
  · rw [hread]
    exact .given hlegible _
  · rw [hread]
    exact .missing hdeep

/-- Whether an id is answered hinges on the metadata of its asset. -/
theorem hinges_readLive (id : String) :
    Hinges (∀ p ∈ liveAssets L, p.2.id = id → p.2.metadata.Legible)
      (readLive (liveAssets L) id) := by
  unfold readLive
  cases hfind : (liveAssets L).find? fun p => decide (p.2.id = id) with
  | none =>
      refine .given (fun p hp hid => ?_) none
      exact absurd (decide_eq_true hid) (List.find?_eq_none.1 hfind p hp)
  | some p =>
      have hp : p ∈ liveAssets L := List.mem_of_find?_eq_some hfind
      obtain rfl : p.2.id = id := by simpa using List.find?_some hfind
      refine ((hinges_readBack hL hp).map some).congr ⟨fun hlegible q hq hid => ?_, fun h => h p hp rfl⟩
      -- the asset under the id is the only one
      have hsame := find?_liveAssets hq
      rw [hid, hfind] at hsame
      exact Option.some.inj hsame ▸ hlegible

end Live

/-! ## Stores in memory -/

/-- A page holds some of what it is cut from. -/
theorem mem_of_mem_page {filters : Filters} {found : List (Millis × Asset)} {p : Millis × Asset}
    (h : p ∈ filters.page found) : p ∈ found := by
  rw [Filters.page_eq] at h
  cases hlimit : filters.effectiveLimit with
  | none => rwa [hlimit] at h
  | some limit =>
      rw [hlimit] at h
      exact List.mem_of_mem_take h

/-- A search of a store in memory reads the assets on its page. -/
theorem answered_search_of_recalls {L : List (Millis × Change)} {m : MemoryStore}
    (h : MemoryStore.Recalls L m) (hL : ∀ p ∈ L, p.2.Proper) (query : String) (filters : Filters) :
    Answered ((Operation.search query filters).FindsLegible L)
      (Operation.search query filters).Whole ((m.search query filters).map Result.page) := by
  rw [h.search_eq query filters]
  have hfound {p : Millis × Asset} :
      p ∈ (liveAssets L).reverse.filter (fun p => decide (p.2.Answers query filters))
        ↔ p ∈ liveAssets L ∧ p.2.Answers query filters := by
    rw [List.mem_filter, List.mem_reverse, decide_eq_true_iff]
  generalize (liveAssets L).reverse.filter (fun p => decide (p.2.Answers query filters)) = found
    at hfound
  have hread : Hinges (∀ p ∈ filters.page found, p.2.metadata.Legible)
      ((filters.page found).mapM fun p => p.2.readBack p.1) :=
    .mapM fun p hp => hinges_readBack hL (hfound.1 (mem_of_mem_page hp)).1
  refine answered_of_hinges ((hread.bind_pure _).map Result.page) ?_ ?_
  · intro hlegible p hp
    obtain ⟨hlive, hanswers⟩ := hfound.1 (mem_of_mem_page hp)
    exact hlegible p hlive hanswers
  · intro hwhole hlegible p hp hanswers
    refine hlegible p ?_
    rw [Filters.page_eq, show filters.effectiveLimit = none from hwhole]
    exact hfound.2 ⟨hp, hanswers⟩

/-- An operation on a store in memory reads the assets that it finds. -/
theorem answered_of_recalls {L : List (Millis × Change)} {m : MemoryStore}
    (h : MemoryStore.Recalls L m) (hL : ∀ p ∈ L, p.2.Proper) (now : Millis) (op : Operation) :
    Answered (op.FindsLegible L) op.Whole (perform now op m).1 := by
  cases op with
  | asset id =>
      show Answered _ _ ((m.asset? id).map Result.asset)
      rw [h.asset?_eq id]
      exact answered_of_hinges_all ((hinges_readLive hL id).map Result.asset)
  | search query filters => exact answered_search_of_recalls h hL query filters
  | change c => exact answered_of_hinges_all (.given trivial _)
  | ledger platform => exact answered_of_hinges_all (.given trivial _)
  | edges id => exact answered_of_hinges_all (.given trivial _)
  | recentErrors platform limit => exact answered_of_hinges_all (.given trivial _)
  | health => exact answered_of_hinges_all (.given trivial _)

/-! ## Databases -/

section Databases

variable {L : List (Millis × Change)} {d : Database}

/-- A row that is written for an asset is found where the asset answers. -/
theorem isFound_of_unnumbered {r : AssetRow} {p : Millis × Asset} (h : r.unnumbered = toRow p)
    (query : String) (filters : Filters) :
    r.isFound query filters = true ↔ p.2.Answers query filters := by
  show r.unnumbered.isFound query filters = true ↔ _
  rw [h, isFound_eq rfl rfl rfl rfl, ← Asset.answers_iff]

/-- The rows that a search finds are those of the live assets that answer it. -/
theorem hits_of_holds (h : d.Holds L) (query : String) (filters : Filters) :
    ∃ rows, d.hits query filters = .ok rows
      ∧ (∀ r ∈ rows, ∃ p ∈ liveAssets L, p.2.Answers query filters ∧ r.decode = p.2.readBack p.1)
      ∧ ∀ p ∈ liveAssets L, p.2.Answers query filters → ∃ r ∈ rows, r.decode = p.2.readBack p.1 := by
  have hhits : d.hits query filters = .ok (AssetRow.newestFirst
      ((d.assets.getD []).filter (AssetRow.isFound query filters))) := by
    unfold Database.hits
    rw [h.assets_eq]
    rfl
  refine ⟨_, hhits, ?_, ?_⟩
  · intro r hr
    obtain ⟨hr, hfound⟩ := List.mem_filter.1 (List.mem_mergeSort.1 hr)
    have hmem := List.mem_map_of_mem hr (f := AssetRow.unnumbered)
    rw [h.assets] at hmem
    obtain ⟨p, hp, hsame⟩ := List.mem_map.1 hmem
    exact ⟨p, hp, (isFound_of_unnumbered hsame.symm query filters).1 hfound,
      Database.decode_of_unnumbered hsame.symm⟩
  · intro p hp hanswers
    have hmem := List.mem_map_of_mem hp (f := toRow)
    rw [← h.assets] at hmem
    obtain ⟨r, hr, hsame⟩ := List.mem_map.1 hmem
    have hfound := (isFound_of_unnumbered hsame query filters).2 hanswers
    exact ⟨r, List.mem_mergeSort.2 (List.mem_filter.2 ⟨hr, hfound⟩),
      Database.decode_of_unnumbered hsame⟩

theorem mem_of_mem_limitRows {α : Type} {count : Int} {rows : List α} {r : α}
    (h : r ∈ limitRows count rows) : r ∈ rows := by
  unfold limitRows at h
  split at h
  · exact h
  · exact List.mem_of_mem_take h

/-- A search of a database reads the rows that it fetches. -/
theorem answered_search_of_holds (h : d.Holds L) (hL : ∀ p ∈ L, p.2.Proper) (query : String)
    (filters : Filters) :
    Answered ((Operation.search query filters).FindsLegible L)
      (Operation.search query filters).Whole ((d.search query filters).map Result.page) := by
  obtain ⟨rows, hhits, hrows, hall⟩ := hits_of_holds h query filters
  have hread {fetched : List AssetRow} (hfetched : ∀ r ∈ fetched, r ∈ rows) :
      Hinges (∀ r ∈ fetched, r.decode.isOk = true) (fetched.mapM AssetRow.decode) := by
    refine .mapM fun r hr => ?_
    obtain ⟨p, hp, -, hdecode⟩ := hrows r (hfetched r hr)
    rw [hdecode]
    exact (hinges_readBack hL hp).of_isOk
  have hgiven {fetched : List AssetRow} (hfetched : ∀ r ∈ fetched, r ∈ rows)
      (hlegible : (Operation.search query filters).FindsLegible L) :
      ∀ r ∈ fetched, r.decode.isOk = true := by
    intro r hr
    obtain ⟨p, hp, hanswers, hdecode⟩ := hrows r (hfetched r hr)
    rw [hdecode]
    exact (hinges_readBack hL hp).isOk_iff.2 (hlegible p hp hanswers)
  unfold Database.search
  simp only [hhits, bind, Except.bind]
  cases hlimit : filters.effectiveLimit with
  | none =>
      -- all rows are read that were found
      refine answered_of_hinges (((hread fun _ hr => hr).bind_pure _).map Result.page)
        (hgiven fun _ hr => hr) ?_
      intro _ hok p hp hanswers
      obtain ⟨r, hr, hdecode⟩ := hall p hp hanswers
      have hok := hok r hr
      rw [hdecode] at hok
      exact (hinges_readBack hL hp).isOk_iff.1 hok
  | some limit =>
      have hfetched : ∀ r ∈ limitRows (fetchCount limit) rows, r ∈ rows :=
        fun _ => mem_of_mem_limitRows
      refine answered_of_hinges (((hread hfetched).bind_pure _).map Result.page)
        (hgiven hfetched) ?_
      intro hwhole
      exact absurd (hlimit.symm.trans hwhole) (Option.some_ne_none limit)

/-- A change is refused only over a ledger that cannot be read. -/
theorem hinges_change (h : d.Holds L) (hL : ∀ p ∈ L, p.2.Proper) (now : Millis) (c : Change) :
    Hinges ((Operation.change c).ConsultsLegible L) (Database.change now c d).1 := by
  have hedges : d.edges = some (d.edges.getD []) := (congrArg Database.edges h.tables).symm
  have herrors : d.errors = some (d.errors.getD []) := (congrArg Database.errors h.tables).symm
  cases c with
  | ingest a =>
      rw [show Database.change now (.ingest a) d = _ from Database.onAssets_eq h.assets_eq _]
      exact .given trivial ()
  | remove id =>
      rw [show Database.change now (.remove id) d = _ from Database.remove_eq h.assets_eq hedges id]
      exact .given trivial ()
  | record platform fields =>
      show Hinges (LedgerLegible L platform) (Database.record now platform fields d).1
      rw [Database.record_fst h.ledger_eq, h.ledger]
      exact (hinges_readLedger hL platform).map _
  | relate e =>
      rw [show Database.change now (.relate e) d = _ from Database.onEdges_eq hedges _]
      exact .given trivial ()
  | clear origin kind =>
      rw [show Database.change now (.clear origin kind) d = _ from Database.onEdges_eq hedges _]
      exact .given trivial ()
  | logError platform message =>
      rw [show Database.change now (.logError platform message) d = _ from
        Database.onErrors_eq herrors _]
      exact .given trivial ()

end Databases

/-- An operation on a database reads the assets that it finds and the ledger that it consults. -/
theorem answered_of_holds {L : List (Millis × Change)} {s : RelationalStore}
    (h : RelationalStore.Holds L s) (hL : ∀ p ∈ L, p.2.Proper) (now : Millis) (op : Operation) :
    Answered (op.FindsLegible L ∧ op.ConsultsLegible L) op.Whole (perform now op s).1 := by
  have hd := h.database
  have hquery {α : Type} (q : Database → Except Fault α) :
      (s.query q).1 = q s.database.createTables := congrArg Prod.fst (h.query_eq q)
  cases op with
  | change c =>
      show Answered _ _ ((s.execute (Database.change now c)).1.map fun _ => Result.done)
      rw [h.execute_eq]
      refine answered_of_hinges_all (((hinges_change hd hL now c).map _).congr ?_)
      exact iff_of_eq (true_and _).symm
  | asset id =>
      show Answered _ _ ((s.query (Database.asset? id)).1.map Result.asset)
      rw [hquery, hd.asset?_eq]
      refine answered_of_hinges_all (((hinges_readLive hL id).map Result.asset).congr ?_)
      exact iff_of_eq (and_true _).symm
  | search query filters =>
      show Answered _ _ ((s.query (Database.search query filters)).1.map Result.page)
      rw [hquery]
      obtain ⟨hfault, hgiven, hmissing⟩ := answered_search_of_holds hd hL query filters
      exact ⟨hfault, fun h => hgiven h.1, fun hwhole h => hmissing hwhole fun h' => h ⟨h', trivial⟩⟩
  | ledger platform =>
      show Answered _ _ ((s.query (Database.ledger? platform)).1.map Result.ledger)
      rw [hquery, hd.ledger?_eq]
      refine answered_of_hinges_all (((hinges_readLedger hL platform).map Result.ledger).congr ?_)
      exact iff_of_eq (true_and _).symm
  | edges id =>
      have hedges : s.database.createTables.edges = some _ := rfl
      show Answered _ _ ((s.query (Database.edgesOf id)).1.map Result.edges)
      rw [hquery]
      exact answered_of_hinges_all (.given ⟨trivial, trivial⟩ _)
  | recentErrors platform limit =>
      show Answered _ _ ((s.query (Database.recentErrors platform limit)).1.map Result.errors)
      rw [hquery]
      exact answered_of_hinges_all (.given ⟨trivial, trivial⟩ _)
  | health => exact answered_of_hinges_all (.given ⟨trivial, trivial⟩ _)

/-! ## Histories -/

/-- The changes of a proper history are proper, and so are those that are accepted. -/
theorem proper_of_accepted {σ : Type} [Backend σ] {release reopen : σ → σ} {events : List Event}
    (h : ∀ event ∈ events, event.Proper) {s : σ} :
    ∀ p ∈ accepted release reopen events s, p.2.Proper :=
  fun _ hp => h _ (mem_of_mem_accepted hp)

/-- **Accepted writes.** Behind every history of values that a program can hold, an operation succeeds
when all is legible that it finds among what was accepted, and in a database also the ledger that it
consults. It fails over nothing but a text that cannot be read, and does so when not all is legible,
unless it asks for a page. -/
theorem answered_behind {events : List Event} (h : ∀ event ∈ events, event.Proper) (now : Millis)
    (op : Operation) :
    Answered (op.FindsLegible (memoryAccepted events)) op.Whole
        (perform now op (memoryBehind events)).1
      ∧ Answered (op.FindsLegible (relationalAccepted events)
          ∧ op.ConsultsLegible (relationalAccepted events)) op.Whole
        (perform now op (relationalBehind events)).1 :=
  ⟨answered_of_recalls (MemoryStore.recalls_behind events) (proper_of_accepted h) now op,
    answered_of_holds (RelationalStore.holds_behind events) (proper_of_accepted h) now op⟩

/-! ## Values that are nested too deep -/

/-- Lists that stand inside each other. -/
def nest : Nat → Json
  | 0 => .null
  | n + 1 => .array [nest n]

theorem depth_nest (n : Nat) : (nest n).depth = n := by
  induction n with
  | zero => rfl
  | succ n ih =>
      show max (nest n).depth 0 + 1 = n + 1
      rw [ih, Nat.max_zero]

theorem proper_nest (n : Nat) : (nest n).Proper := by
  induction n with
  | zero => exact .null
  | succ n ih => exact .array fun v hv => List.mem_singleton.1 hv ▸ ih

/-- One field with a value that can be read for itself, but not inside an object. -/
def deepFields : Fields := [("note", nest 127)]

theorem proper_deepFields : Json.Proper (.object deepFields) :=
  .object (List.pairwise_singleton _ _) fun _ hp => List.mem_singleton.1 hp ▸ proper_nest 127

/-- A history in which a ledger is given the value, before the connection is closed. -/
def deepHistory : List Event := [.ask 0 (.change (.record "p" deepFields)), .release]

theorem proper_deepHistory : ∀ event ∈ deepHistory, event.Proper := by
  simp only [deepHistory, List.forall_mem_cons]
  exact ⟨proper_deepFields, trivial, List.forall_mem_nil _⟩

/-- A store in memory tells the ledger, a database does not. -/
theorem answered_behind_deepHistory :
    (∀ event ∈ deepHistory, event.Proper)
      ∧ (perform 1 (.ledger "p") (memoryBehind deepHistory)).1.isOk = true
      ∧ (perform 1 (.ledger "p") (relationalBehind deepHistory)).1.isOk = false := by
  obtain ⟨hmemory, hrelational⟩ := answered_behind proper_deepHistory 1 (.ledger "p")
  refine ⟨proper_deepHistory, hmemory.given trivial, hrelational.missing trivial ?_⟩
  rintro ⟨-, hlegible⟩
  have hdepth : (nest 127).depth < 127 :=
    hlegible ("note", nest 127) (List.mem_singleton_self _) (by decide)
  rw [depth_nest] at hdepth
  exact Nat.lt_irrefl _ hdepth

/-- A note whose metadata is the object with the value. -/
def deepNote : Asset := ⟨"a", "A", "text", .asset, "s", .untyped deepFields⟩

/-- An asset that was accepted is not shown by get, by either kind of store. -/
theorem deepNote_unread :
    (¬∀ events : List Event, (∀ event ∈ events, event.Proper) →
        ∀ answer ∈ memoryAnswers events {}, answer.isOk = true)
      ∧ ¬∀ events : List Event, (∀ event ∈ events, event.Proper) →
        ∀ answer ∈ relationalAnswers events {}, answer.isOk = true := by
  let stored : List Event := [.ask 0 (.change (.ingest deepNote))]
  have hstored : ∀ event ∈ stored, event.Proper := List.forall_mem_singleton.2 proper_deepFields
  have hevents : ∀ event ∈ stored ++ [.ask 0 (.asset "a")], event.Proper :=
    List.forall_mem_append.2 ⟨hstored, List.forall_mem_singleton.2 trivial⟩
  -- on both sides the note is the only live asset
  have hdeep : ¬(Operation.asset "a").FindsLegible [(0, .ingest deepNote)] := by
    intro h
    have hdepth : max (nest 127).depth 0 + 1 ≤ 127 := h (0, deepNote) (List.mem_singleton_self _) rfl
    rw [depth_nest] at hdepth
    exact absurd hdepth (by decide)
  constructor
  · intro h
    have hmissing := (answered_of_recalls (MemoryStore.recalls_behind stored)
      (proper_of_accepted hstored) 0 (.asset "a")).missing trivial hdeep
    have hok := h _ hevents _ (mem_answers_append stored 0 (.asset "a") _)
    exact Bool.false_ne_true (hmissing.symm.trans hok)
  · intro h
    have hmissing := (answered_of_holds (RelationalStore.holds_behind stored)
      (proper_of_accepted hstored) 0 (.asset "a")).missing trivial fun h => hdeep h.1
    have hok := h _ hevents _ (mem_answers_append stored 0 (.asset "a") _)
    exact Bool.false_ne_true (hmissing.symm.trans hok)

end ContentGraph.Store
