import ContentGraph.Proofs.Store.Paging

/-!
# Types that are shown and types that are asked for

A row whose text for the type is the name of none is shown as an `asset`, while a search for a type
compares that text. Main statement: a search for a type finds the rows with its name, which are those
that are shown with it, but for the rows that are shown as `asset` without its name
(`search_type_iff`). So a row may be shown with a type and not be found by it (`stray_unfound`).
-/

namespace ContentGraph

open List (Forall₂)
open Store (Fault Backend)

namespace AssetRow

variable {r : AssetRow} {type : AssetType}

/-- Holds when the text of a row for its type is the name of one. -/
def HasType (r : AssetRow) : Prop := (AssetType.ofName? r.type).isSome

instance (r : AssetRow) : Decidable r.HasType := inferInstanceAs (Decidable (_ = true))

theorem type_of_decode {a : Asset} (h : r.decode = .ok a) : a.type = r.shownType := by
  unfold decode at h
  split at h
  · injection h with h
    rw [← h]
  · cases h

theorem shownType_of_type (h : r.type = type.name) : r.shownType = type := by
  unfold shownType
  rw [h, AssetType.ofName?_name]
  rfl

/-- A row whose text names a type is shown with that type. -/
theorem HasType.shownType_eq_iff (h : r.HasType) : r.shownType = type ↔ r.type = type.name := by
  refine ⟨fun hshown => ?_, shownType_of_type⟩
  obtain ⟨named, hnamed⟩ := Option.isSome_iff_exists.1 h
  unfold shownType at hshown
  rw [hnamed, Option.getD_some] at hshown
  rw [← hshown]
  exact AssetType.ofName?_eq_some_iff.1 hnamed

/-- A row whose text names no type is shown as an asset. -/
theorem shownType_of_not_hasType (h : ¬r.HasType) : r.shownType = .asset := by
  unfold shownType
  rw [Option.not_isSome_iff_eq_none.1 h]
  rfl

/-- A search for a type asks for its name besides. -/
theorem isFound_typed (query : String) (filters : Filters) (type : AssetType) (r : AssetRow) :
    isFound query { filters with type := some type } r
      = (decide (r.type = type.name) && isFound query { filters with type := none } r) := by
  unfold isFound
  have hname : (type.name == r.type) = decide (r.type = type.name) := by
    rw [Bool.eq_iff_iff, beq_iff_eq, decide_eq_true_eq]
    exact eq_comm
  simp only [Option.all_some, Option.all_none, Bool.and_true, hname]
  exact Bool.and_comm _ _

/-- The rows that a search for a type finds, among those that it finds without. -/
theorem newestFirst_typed (query : String) (filters : Filters) (type : AssetType)
    (rows : List AssetRow) :
    newestFirst (rows.filter (isFound query { filters with type := some type }))
      = (newestFirst (rows.filter (isFound query { filters with type := none }))).filter
        fun r => r.type = type.name := by
  unfold newestFirst
  rw [← mergeSort_filter RelationalStore.rows_trans RelationalStore.rows_total, List.filter_filter]
  refine congrArg (List.mergeSort · _) (List.filter_congr fun r _ => ?_)
  exact isFound_typed query filters type r

/-- Rows that can be read are read to assets. -/
theorem exists_assets {rows : List AssetRow} (h : ∀ r ∈ rows, r.Readable) :
    ∃ assets, Forall₂ (fun r a => r.decode = .ok a) rows assets := by
  induction rows with
  | nil => exact ⟨[], .nil⟩
  | cons r rows ih =>
      obtain ⟨hr, hrows⟩ := List.forall_mem_cons.1 h
      obtain ⟨a, ha⟩ := hr
      obtain ⟨assets, hassets⟩ := ih hrows
      exact ⟨a :: assets, .cons ha hassets⟩

section Read

variable {rows : List AssetRow} {items typed : List Asset}

/-- What is shown with a type is read of the rows that are shown with it. -/
theorem forall₂_shownType (h : Forall₂ (fun r a => r.decode = .ok a) rows items)
    (type : AssetType) :
    Forall₂ (fun r a => r.decode = .ok a) (rows.filter fun r => r.shownType = type)
      (items.filter fun a => a.type = type) := by
  induction h with
  | nil => exact .nil
  | @cons r a rows items hread _ ih =>
      rw [List.filter_cons, List.filter_cons, type_of_decode hread]
      split
      · exact .cons hread ih
      · exact ih

/-- The rows with the name of a type show all that is shown with it when none is shown as an asset
without that name. -/
theorem typed_eq_iff (hitems : Forall₂ (fun r a => r.decode = .ok a) rows items)
    (htyped : Forall₂ (fun r a => r.decode = .ok a) (rows.filter fun r => r.type = type.name) typed) :
    typed = items.filter (fun a => a.type = type) ↔ type = .asset → ∀ r ∈ rows, r.HasType := by
  have hshown := forall₂_shownType hitems type
  constructor
  · intro heq hasset r hr
    -- as many rows have the name as are shown with the type, so these are the same
    have hsublist : (rows.filter fun r => r.type = type.name).Sublist
        (rows.filter fun r => r.shownType = type) := by
      refine List.monotone_filter_right rows fun r hr => ?_
      exact decide_eq_true (shownType_of_type (of_decide_eq_true hr))
    have hsame := hsublist.eq_of_length (by rw [htyped.length_eq, hshown.length_eq, heq])
    by_contra hstray
    have hmem : r ∈ rows.filter fun r => r.shownType = type :=
      List.mem_filter.2 ⟨hr, decide_eq_true ((shownType_of_not_hasType hstray).trans hasset.symm)⟩
    rw [← hsame] at hmem
    have hname : r.type = type.name := of_decide_eq_true (List.mem_filter.1 hmem).2
    apply hstray
    unfold HasType
    rw [hname, AssetType.ofName?_name]
    rfl
  · intro h
    have hsame : (rows.filter fun r => r.type = type.name)
        = rows.filter fun r => r.shownType = type := by
      refine List.filter_congr fun r hr => ?_
      rw [decide_eq_decide]
      by_cases hnamed : r.HasType
      · exact hnamed.shownType_eq_iff.symm
      · have hother : type ≠ .asset := fun hasset => hnamed (h hasset r hr)
        refine ⟨shownType_of_type, fun hr => ?_⟩
        exact absurd (hr.symm.trans (shownType_of_not_hasType hnamed)) hother
    rw [hsame] at htyped
    refine Relator.RightUnique.forall₂ (fun r a b ha hb => ?_) htyped hshown
    exact Except.ok.inj (ha.symm.trans hb)

end Read

end AssetRow

namespace RelationalStore

/-- What searches without a limit show, with a type and without. -/
theorem search_of_typed {s : RelationalStore} {rows : List AssetRow} (hreach : s.obstacle = none)
    (hrows : s.database.assets = some rows) (hread : ∀ r ∈ rows, r.Readable) (filters : Filters)
    (hlimit : filters.effectiveLimit = none) (query : String) (type : AssetType) :
    ∃ found items typed, AssetRow.Ranked query { filters with type := none } rows found
      ∧ Forall₂ (fun r a => r.decode = .ok a) found items
      ∧ Forall₂ (fun r a => r.decode = .ok a) (found.filter fun r => r.type = type.name) typed
      ∧ (Backend.search query { filters with type := none } s).1 = .ok ⟨items, false⟩
      ∧ (Backend.search query { filters with type := some type } s).1 = .ok ⟨typed, false⟩ := by
  have hranked := AssetRow.ranked_newestFirst query { filters with type := none } rows
  have hall := search_of_unlimited hreach hrows { filters with type := none } hlimit query
  have htype := search_of_unlimited hreach hrows { filters with type := some type } hlimit query
  rw [AssetRow.newestFirst_typed] at htype
  generalize AssetRow.newestFirst _ = found at hranked hall htype
  have hfound : ∀ r ∈ found, r.Readable := fun r hr =>
    hread r (List.mem_of_mem_filter (hranked.matching.subset hr))
  obtain ⟨items, hitems⟩ := AssetRow.exists_assets hfound
  have hnamed : ∀ r ∈ found.filter fun r => r.type = type.name, r.Readable := fun r hr =>
    hfound r (List.mem_of_mem_filter hr)
  obtain ⟨typed, htyped⟩ := AssetRow.exists_assets hnamed
  rw [Except.mapM_of_forall₂ hitems] at hall
  rw [Except.mapM_of_forall₂ htyped] at htype
  exact ⟨found, items, typed, hranked, hitems, htyped, hall, htype⟩

/-- **Types.** Where all rows can be read and there is no limit, a search for a type shows the assets
of those rows, among all that it finds without, whose text is the name of the type, in the same order.
These are the assets that are shown with the type, unless it is `asset` and some row that is found has
a text that names no type. -/
theorem search_type_iff {s : RelationalStore} {rows : List AssetRow} (hreach : s.obstacle = none)
    (hrows : s.database.assets = some rows) (hread : ∀ r ∈ rows, r.Readable) (filters : Filters)
    (hlimit : filters.effectiveLimit = none) (query : String) (type : AssetType) :
    ∃ found items typed, AssetRow.Ranked query { filters with type := none } rows found
      ∧ Forall₂ (fun r a => r.decode = .ok a) found items
      ∧ Forall₂ (fun r a => r.decode = .ok a) (found.filter fun r => r.type = type.name) typed
      ∧ (Backend.search query { filters with type := none } s).1 = .ok ⟨items, false⟩
      ∧ (Backend.search query { filters with type := some type } s).1 = .ok ⟨typed, false⟩
      ∧ (typed = items.filter (fun a => a.type = type)
        ↔ type = .asset → ∀ r ∈ found, r.HasType) := by
  obtain ⟨found, items, typed, hranked, hitems, htyped, hall, htype⟩ :=
    search_of_typed hreach hrows hread filters hlimit query type
  exact ⟨found, items, typed, hranked, hitems, htyped, hall, htype,
    AssetRow.typed_eq_iff hitems htyped⟩

/-- A row whose type is of another time. -/
def strayRow : AssetRow := ⟨"b", "B", "text", "novel", "s", "\x7b\x7d", 2, 2⟩

/-- Rows with two types that have names and one that has none. -/
def mixedRows : List AssetRow := [
  ⟨"a", "A", "text", "blog-post", "s", "\x7b\x7d", 1, 1⟩,
  strayRow,
  ⟨"c", "C", "text", "asset", "s", "\x7b\x7d", 3, 3⟩]

theorem readable_mixedRows : ∀ r ∈ mixedRows, r.Readable := by
  intro r hr
  refine ⟨⟨r.id, r.title, r.content, r.shownType, r.source, .untyped []⟩, ?_⟩
  unfold mixedRows strayRow at hr
  simp only [List.mem_cons, List.not_mem_nil, or_false] at hr
  rcases hr with rfl | rfl | rfl <;> rfl

/-- A store in a database that has nothing but these rows. -/
def mixedStore : RelationalStore where
  database := { assets := some mixedRows }

/-- A search for posts shows what is shown as a post. -/
theorem search_type_iff_mixedStore :
    mixedStore.obstacle = none ∧ mixedStore.database.assets = some mixedRows
      ∧ (∀ r ∈ mixedRows, r.Readable) ∧ ({ limit := some 0 } : Filters).effectiveLimit = none
      ∧ ∃ items, (Backend.search "ex" { limit := some 0 } mixedStore).1 = .ok ⟨items, false⟩
        ∧ (Backend.search "ex" { limit := some 0, type := some .blogPost } mixedStore).1
          = .ok ⟨items.filter fun a => a.type = .blogPost, false⟩ := by
  obtain ⟨found, items, typed, -, -, -, hall, htype, hiff⟩ :=
    search_type_iff (s := mixedStore) rfl rfl readable_mixedRows { limit := some 0 } rfl "ex" .blogPost
  have htyped := hiff.2 fun hasset => nomatch hasset
  rw [htyped] at htype
  exact ⟨rfl, rfl, readable_mixedRows, rfl, items, hall, htype⟩

/-- A search for assets does not show a row that is shown as an asset for want of a type. -/
theorem stray_unfound :
    ¬∀ (s : RelationalStore) (rows : List AssetRow) (filters : Filters) (query : String)
        (type : AssetType),
      s.obstacle = none → s.database.assets = some rows → (∀ r ∈ rows, r.Readable) →
      filters.effectiveLimit = none →
      ∃ items, (Backend.search query { filters with type := none } s).1 = .ok ⟨items, false⟩
        ∧ (Backend.search query { filters with type := some type } s).1
          = .ok ⟨items.filter fun a => a.type = type, false⟩ := by
  intro h
  obtain ⟨items, hall, htype⟩ :=
    h mixedStore mixedRows {} "" .asset rfl rfl readable_mixedRows rfl
  obtain ⟨found, items', typed, hranked, hitems, htyped, hall', htype'⟩ :=
    search_of_typed (s := mixedStore) rfl rfl readable_mixedRows {} rfl "" .asset
  obtain rfl : items = items' := (Page.mk.inj (Except.ok.inj (hall.symm.trans hall'))).1
  have hsame : typed = items.filter fun a => a.type = .asset :=
    (Page.mk.inj (Except.ok.inj (htype'.symm.trans htype))).1
  have hstray : strayRow ∈ found := by
    refine hranked.matching.symm.subset (List.mem_filter.2 ⟨by decide, decide_eq_true ?_⟩)
    exact AssetRow.isFound_iff.1 rfl
  exact absurd ((AssetRow.typed_eq_iff hitems htyped).1 hsame rfl strayRow hstray) (by decide)

end RelationalStore

end ContentGraph
