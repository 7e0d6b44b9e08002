import ContentGraph.Proofs.Store.Answers
import ContentGraph.Proofs.Store.LegibleLedger
import ContentGraph.Proofs.Store.Shelf

/-!
# Pages and the rows behind them

To tell whether a page is cut short, a database reads the row behind it as well. Main statement: a
search answers with the first matching rows, whatever lies further behind, if that row can be read
too; otherwise it is refused (`search_reads_next`). So a row that cannot be read spoils a page on
which it does not stand (`page_spoiled`). A store in memory cuts the page off first, and answers
whatever lies behind it (`search_ignores_rest`).
-/

namespace ContentGraph

open List (Forall₂)
open Store (Fault Backend)

/-! ## What a search asks for -/

namespace AssetRow

variable {query : String} {filters : Filters} {rows found found' : List AssetRow}

/-- What a search asks of a row: the text stands in the title or the content, and the source and the
written type are the wanted ones. -/
structure Matches (query : String) (filters : Filters) (r : AssetRow) : Prop where
  text : query.toList <:+: r.title.toList ∨ query.toList <:+: r.content.toList
  source : ∀ source ∈ filters.source, r.source = source
  type : ∀ type ∈ filters.type, r.type = type.name

theorem isFound_iff {r : AssetRow} : r.isFound query filters = true ↔ r.Matches query filters := by
  have htext : (query.isEmpty || Text.contains query.toList r.title.toList
        || Text.contains query.toList r.content.toList) = true
      ↔ query.toList <:+: r.title.toList ∨ query.toList <:+: r.content.toList := by
    rw [Bool.or_eq_true, Bool.or_eq_true, Text.contains_iff_infix, Text.contains_iff_infix]
    -- an empty text stands in every title
    have hempty : query.isEmpty = true → query.toList <:+: r.title.toList := by
      intro h
      rw [String.isEmpty_iff.1 h]
      exact List.nil_infix
    exact or_congr_left (or_iff_right_of_imp hempty)
  have hsource : filters.source.all (· == r.source) = true
      ↔ ∀ source ∈ filters.source, r.source = source := by
    cases filters.source with
    | none => simp
    | some source => simpa using eq_comm
  have htype : filters.type.all (·.name == r.type) = true
      ↔ ∀ type ∈ filters.type, r.type = type.name := by
    cases filters.type with
    | none => simp
    | some type => simpa using eq_comm
  unfold isFound
  rw [Bool.and_eq_true, Bool.and_eq_true, htext, hsource, htype]
  exact ⟨fun ⟨⟨text, source⟩, type⟩ => ⟨text, source, type⟩, fun h => ⟨⟨h.text, h.source⟩, h.type⟩⟩

instance (query : String) (filters : Filters) (r : AssetRow) : Decidable (r.Matches query filters) :=
  decidable_of_iff _ isFound_iff

/-- Holds when a row was updated later than another or, at one time, has no lower revision. -/
def NoOlder (a b : AssetRow) : Prop :=
  b.updatedAt < a.updatedAt ∨ b.updatedAt = a.updatedAt ∧ b.revision ≤ a.revision

instance (a b : AssetRow) : Decidable (NoOlder a b) := inferInstanceAs (Decidable (_ ∨ _))

/-- Rows that are found: those that match, the newest first. -/
structure Ranked (query : String) (filters : Filters) (rows found : List AssetRow) : Prop where
  matching : found.Perm (rows.filter fun r => r.Matches query filters)
  newest : found.Pairwise NoOlder

theorem ranked_newestFirst (query : String) (filters : Filters) (rows : List AssetRow) :
    Ranked query filters rows (newestFirst (rows.filter (isFound query filters))) where
  matching := by
    have hfilter : rows.filter (isFound query filters)
        = rows.filter fun r => decide (r.Matches query filters) := by
      refine List.filter_congr fun r _ => ?_
      rw [Bool.eq_iff_iff, isFound_iff, decide_eq_true_eq]
    rw [← hfilter]
    exact List.mergeSort_perm _ _
  newest := by
    have hsorted := List.pairwise_mergeSort RelationalStore.rows_trans RelationalStore.rows_total
      (rows.filter (isFound query filters))
    exact hsorted.imp fun h => (Store.noOlder_iff _ _).1 h

/-- Rows of different revisions are ranked in one way only. -/
theorem Ranked.unique (hrows : (rows.map (·.revision)).Nodup) (h : Ranked query filters rows found)
    (h' : Ranked query filters rows found') : found = found' := by
  refine List.Perm.eq_of_pairwise (fun a b ha hb hab hba => ?_) h.newest h'.newest
    (h.matching.trans h'.matching.symm)
  have hrevision : a.revision = b.revision :=
    RelationalStore.rows_anti a b ((Store.noOlder_iff _ _).2 hab) ((Store.noOlder_iff _ _).2 hba)
  exact List.inj_on_of_nodup_map hrows (List.mem_of_mem_filter (h.matching.subset ha))
    (List.mem_of_mem_filter (h'.matching.subset hb)) hrevision

/-- Holds when there is an asset in a row. -/
def Readable (r : AssetRow) : Prop := ∃ a, r.decode = .ok a

/-- A row is read if it can be. -/
theorem hinges_decode (r : AssetRow) : Hinges r.Readable r.decode := by
  cases hread : r.decode with
  | ok a => exact .given ⟨a, hread⟩ a
  | error e =>
      have he : e = .undecodable := by
        unfold decode at hread
        split at hread
        · exact nomatch hread
        · exact (Except.error.inj hread).symm
      subst he
      exact .missing fun ⟨a, ha⟩ => nomatch ha.symm.trans hread

end AssetRow

/-! ## Databases -/

namespace Database

/-- What is answered of the rows that are found, where a page holds `limit` of them: the row behind
the page is read with them. -/
structure ReadsNext (limit : Nat) (found : List AssetRow) (answer : Except Fault Page) : Prop where
  /-- If all of these rows can be read, the page is shown, and whether there is a row behind it. -/
  shown : ∀ assets, Forall₂ (fun r a => r.decode = .ok a) (found.take limit) assets →
    (∀ next ∈ found[limit]?, next.Readable) →
    answer = .ok ⟨assets, decide (limit < found.length)⟩
  /-- One of them that cannot be read is enough to refuse the page. -/
  refused : (∃ r ∈ found.take (limit + 1), ¬r.Readable) → answer = .error .undecodable

/-- Reading one row more than the page holds, and cutting it off again. -/
theorem readsNext_take (limit : Nat) (found : List AssetRow) :
    ReadsNext limit found (do
      let items ← (found.take (limit + 1)).mapM AssetRow.decode
      return ⟨items.take limit, limit < items.length⟩) where
  shown := by
    intro assets hassets hnext
    have hlength : assets.length = min limit found.length := by
      rw [← hassets.length_eq, List.length_take]
    have hnextRead : ∃ behind, Forall₂ (fun r a => r.decode = .ok a) found[limit]?.toList behind := by
      cases hbehind : found[limit]? with
      | none => exact ⟨[], .nil⟩
      | some next =>
          obtain ⟨a, ha⟩ := hnext next hbehind
          exact ⟨[a], .cons ha .nil⟩
    obtain ⟨behind, hbehind⟩ := hnextRead
    have hread : (found.take (limit + 1)).mapM AssetRow.decode = .ok (assets ++ behind) := by
      rw [List.take_add_one]
      exact Except.mapM_of_forall₂ (List.rel_append hassets hbehind)
    -- there is a row behind the page exactly when the page is full and not the last one
    have hcount : behind.length = if limit < found.length then 1 else 0 := by
      rw [← hbehind.length_eq]
      split
      · next h =>
          rw [List.getElem?_eq_getElem h]
          rfl
      · next h =>
          rw [List.getElem?_eq_none (Nat.le_of_not_lt h)]
          rfl
    have hpage : (assets ++ behind).take limit = assets := by
      split at hcount
      · rw [List.take_left' (by omega)]
      · rw [List.length_eq_zero_iff.1 hcount, List.append_nil, List.take_of_length_le (by omega)]
    have hmore : decide (limit < (assets ++ behind).length) = decide (limit < found.length) := by
      rw [List.length_append, decide_eq_decide]
      split at hcount <;> omega
    rw [hread]
    show Except.ok (Page.mk _ _) = _
    rw [hpage, hmore]
  refused := by
    rintro ⟨r, hr, hunread⟩
    have hread := Hinges.mapM fun (r : AssetRow) (_ : r ∈ found.take (limit + 1)) => r.hinges_decode
    generalize (found.take (limit + 1)).mapM AssetRow.decode = items at hread
    cases hread with
    | given h => exact absurd (h r hr) hunread
    | missing => rfl

end Database

theorem Filters.effectiveLimit_of_pos {filters : Filters} {limit : Nat}
    (hlimit : filters.limit = some limit) (hpos : 0 < limit) :
    filters.effectiveLimit = some limit := by
  unfold effectiveLimit
  rw [hlimit, Option.filter_some, if_pos (decide_eq_true hpos)]

namespace RelationalStore

section Reachable

variable {s : RelationalStore} (hreach : s.obstacle = none)

include hreach

/-- A store that can be reached answers a query from its database, where missing tables may have been
made. -/
theorem query_of_reachable {α : Type} (q : Database → Except Fault α) :
    ∃ d, (d = s.database ∨ d = s.database.createTables) ∧ (s.query q).1 = q d := by
  refine ⟨s.prepare.2.database, s.prepare_database, ?_⟩
  have hprepare : s.prepare.1 = .ok () := by
    obtain ⟨database, obstacle, isOpen, hasSchema⟩ := s
    obtain rfl : obstacle = none := hreach
    unfold prepare connect
    cases isOpen <;> cases hasSchema <;> rfl
  unfold query
  rcases hboth : s.prepare with ⟨e | ⟨⟩, s'⟩
  · rw [hboth] at hprepare
    exact nomatch hprepare
  · rfl

/-- A store that can be reached searches the rows of its table. -/
theorem exists_search_eq {rows : List AssetRow} (hrows : s.database.assets = some rows)
    (query : String) (filters : Filters) :
    ∃ d : Database, d.hits query filters
        = .ok (AssetRow.newestFirst (rows.filter (AssetRow.isFound query filters)))
      ∧ (Backend.search query filters s).1 = d.search query filters := by
  obtain ⟨d, hd, hquery⟩ := query_of_reachable hreach (Database.search query filters)
  have hassets : d.assets = some rows := by
    obtain rfl | rfl := hd
    · exact hrows
    · show some (s.database.assets.getD []) = some rows
      rw [hrows]
      rfl
  refine ⟨d, ?_, hquery⟩
  unfold Database.hits
  rw [hassets]
  rfl

/-- What a search reads: the page and the row behind it. -/
theorem search_of_reachable {rows : List AssetRow} {filters : Filters} {limit : Nat}
    (hrows : s.database.assets = some rows) (hcount : rows.length < Word.count 63)
    (hlimit : filters.limit = some limit) (hpos : 0 < limit) (query : String) :
    let found := AssetRow.newestFirst (rows.filter (AssetRow.isFound query filters))
    (Backend.search query filters s).1 = (do
      let items ← (found.take (limit + 1)).mapM AssetRow.decode
      return ⟨items.take limit, limit < items.length⟩) := by
  intro found
  obtain ⟨d, hhits, hsearch⟩ := exists_search_eq hreach hrows query filters
  have hlen : found.length < Word.count 63 := by
    refine Nat.lt_of_le_of_lt ?_ hcount
    unfold found AssetRow.newestFirst
    rw [List.length_mergeSort]
    exact List.length_filter_le _ _
  rw [hsearch]
  unfold Database.search
  rw [hhits, Filters.effectiveLimit_of_pos hlimit hpos, ← Store.limitRows_fetchCount hlen]
  rfl

/-- Without a limit a search reads all rows that it finds. -/
theorem search_of_unlimited {rows : List AssetRow} (hrows : s.database.assets = some rows)
    (filters : Filters) (hlimit : filters.effectiveLimit = none) (query : String) :
    (Backend.search query filters s).1 = (do
      let items ← (AssetRow.newestFirst (rows.filter (AssetRow.isFound query filters))).mapM
        AssetRow.decode
      return ⟨items, false⟩) := by
  obtain ⟨d, hhits, hsearch⟩ := exists_search_eq hreach hrows query filters
  rw [hsearch]
  unfold Database.search
  rw [hhits, hlimit]
  rfl

end Reachable

/-- **Pages.** Of a table with fewer rows than a signed word counts, a search shows the first matching
rows, the newest first, and whether there are more. It reads the page and the row behind it, and is
refused if one of these rows cannot be read; what lies further behind does not matter. -/
theorem search_reads_next {s : RelationalStore} {rows : List AssetRow} {filters : Filters} {limit : Nat}
    (hreach : s.obstacle = none) (hrows : s.database.assets = some rows)
    (hcount : rows.length < Word.count 63) (hlimit : filters.limit = some limit) (hpos : 0 < limit)
    (query : String) :
    ∃ found, AssetRow.Ranked query filters rows found
      ∧ Database.ReadsNext limit found (Backend.search query filters s).1 := by
  refine ⟨_, AssetRow.ranked_newestFirst query filters rows, ?_⟩
  rw [search_of_reachable hreach hrows hcount hlimit hpos]
  exact Database.readsNext_take limit _

/-- A row with a text for metadata that is no JSON. -/
def blottedRow : AssetRow := ⟨"c", "C", "text", "asset", "s", "blot", 1, 1⟩

theorem not_readable_blottedRow : ¬blottedRow.Readable := fun ⟨_, ha⟩ => nomatch ha

/-- Three rows, of which the oldest cannot be read. -/
def blottedRows : List AssetRow := [
  blottedRow,
  ⟨"b", "B", "text", "asset", "s", "\x7b\x7d", 2, 2⟩,
  ⟨"a", "A", "text", "asset", "s", "\x7b\x7d", 2, 3⟩]

theorem ranked_blottedRows (limit : Nat) :
    AssetRow.Ranked "" { limit := some limit } blottedRows blottedRows.reverse where
  matching := by
    have hall : blottedRows.filter (fun r => r.Matches "" { limit := some limit }) = blottedRows :=
      List.filter_eq_self.2 fun r _ => decide_eq_true (AssetRow.isFound_iff.1 rfl)
    rw [hall]
    exact List.reverse_perm _
  newest := by decide

/-- A store in a database that has nothing but these rows. -/
def blottedStore : RelationalStore where
  database := { assets := some blottedRows }

/-- On a page of one row the newest is shown, although the oldest cannot be read. -/
theorem search_reads_next_blottedStore :
    blottedStore.obstacle = none ∧ blottedStore.database.assets = some blottedRows
      ∧ blottedRows.length < Word.count 63 ∧ 0 < 1
      ∧ (Backend.search "" { limit := some 1 } blottedStore).1
        = .ok ⟨[⟨"a", "A", "text", .asset, "s", .untyped []⟩], true⟩ := by
  have hcount : blottedRows.length < Word.count 63 := by decide
  have hlimit : ({ limit := some 1 } : Filters).limit = some 1 := rfl
  obtain ⟨found, hranked, hpage⟩ :=
    search_reads_next (s := blottedStore) rfl rfl hcount hlimit Nat.one_pos ""
  obtain rfl := hranked.unique (by decide) (ranked_blottedRows 1)
  have hnext : ∀ next ∈ blottedRows.reverse[1]?, next.Readable := by
    intro next hnext
    obtain rfl := Option.some.inj hnext
    exact ⟨_, rfl⟩
  exact ⟨rfl, rfl, hcount, Nat.one_pos, hpage.shown _ (.cons rfl .nil) hnext⟩

/-- A page of two rows is refused, although both can be read, because the row behind them cannot. -/
theorem page_spoiled :
    ¬∀ (s : RelationalStore) (rows : List AssetRow) (filters : Filters) (limit : Nat) (query : String),
      s.obstacle = none → s.database.assets = some rows → rows.length < Word.count 63 →
      filters.limit = some limit → 0 < limit →
      ∃ found, AssetRow.Ranked query filters rows found
        ∧ ∀ assets, Forall₂ (fun r a => r.decode = .ok a) (found.take limit) assets →
          (Backend.search query filters s).1 = .ok ⟨assets, decide (limit < found.length)⟩ := by
  intro h
  have hcount : blottedRows.length < Word.count 63 := by decide
  obtain ⟨found, hranked, hpage⟩ :=
    h blottedStore blottedRows { limit := some 2 } 2 "" rfl rfl hcount rfl Nat.two_pos
  obtain rfl := hranked.unique (by decide) (ranked_blottedRows 2)
  have hshown := hpage _ (.cons rfl (.cons rfl .nil))
  -- the row behind the two is read too
  rw [search_of_reachable (s := blottedStore) rfl rfl hcount rfl Nat.two_pos,
    (AssetRow.ranked_newestFirst _ _ _).unique (by decide) (ranked_blottedRows 2)] at hshown
  have hrefused := (Database.readsNext_take 2 blottedRows.reverse).refused
    ⟨blottedRow, by decide, not_readable_blottedRow⟩
  exact nomatch hrefused.symm.trans hshown

end RelationalStore

/-! ## Stores in memory -/

/-- A store in memory shows the first matching assets, the newest first, and whether there are more,
whatever lies behind the page. -/
theorem MemoryStore.search_ignores_rest {filters : Filters} {limit : Nat}
    (hlimit : filters.limit = some limit) (hpos : 0 < limit) (query : String) (m : MemoryStore) :
    ∃ found : List StoredAsset,
      found.Perm (m.assets.filter fun s => s.asset.Answers query filters)
        ∧ found.Pairwise (fun a b => b.revision ≤ a.revision)
        ∧ ∀ assets, Forall₂ (fun s a => s.decode = .ok a) (found.take limit) assets →
          (Backend.search query filters m).1 = .ok ⟨assets, decide (limit < found.length)⟩ := by
  refine ⟨m.hits query filters, ?_, ?_, fun assets hassets => ?_⟩
  · have hfilter : (m.assets.filter fun s => s.asset.mentions query && filters.admits s.asset)
        = m.assets.filter fun s => decide (s.asset.Answers query filters) := by
      refine List.filter_congr fun s _ => ?_
      rw [Bool.eq_iff_iff, ← Asset.answers_iff, decide_eq_true_eq]
    unfold hits
    rw [hfilter]
    exact List.mergeSort_perm _ _
  · have hsorted := List.pairwise_mergeSort newest_trans newest_total
      (m.assets.filter fun s => s.asset.mentions query && filters.admits s.asset)
    exact hsorted.imp of_decide_eq_true
  · show m.search query filters = _
    unfold search
    rw [Filters.effectiveLimit_of_pos hlimit hpos]
    simp only [Except.mapM_of_forall₂ hassets]
    rfl

end ContentGraph
