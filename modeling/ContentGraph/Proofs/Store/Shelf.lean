import ContentGraph.Proofs.Store.Order
import ContentGraph.Proofs.Store.Replay
import ContentGraph.Proofs.Store.Views
import Mathlib.Data.List.Nodup

/-!
# The order of the assets

A search for nothing in particular lists all assets, the newest first. What it lists is a *shelf*:
an asset that is stored is put in front, and what was under its id before is taken away
(`shelfEffect`). Both kinds of store list their shelf (`Shelving`), a database as long as the clock
does not go back behind what was written. Putting the same assets on the shelf once more does not
change it (`foldl_putFirst_twice`).
-/

namespace ContentGraph

open Store (Change Fault Backend)

/-! ## Sorting where the newest is put in the place of others -/

section Sorted

variable {α : Type} {le : α → α → Bool} {revision : α → Nat} {l : List α}

/-- An entry is sorted in behind those that it may not come before, and before all others. -/
theorem mergeSort_cons_eq (trans : ∀ a b c, le a b = true → le b c = true → le a c = true)
    (total : ∀ a b, (le a b || le b a) = true) (a : α) (l : List α) :
    (a :: l).mergeSort le
        = (l.mergeSort le).filter (fun b => !le a b) ++ a :: (l.mergeSort le).filter (le a)
      ∧ (l.mergeSort le).filter (fun b => !le a b) ++ (l.mergeSort le).filter (le a)
        = l.mergeSort le := by
  obtain ⟨before, behind, hcons, hrest, hbefore⟩ := List.mergeSort_cons trans total a l
  have hsorted := List.pairwise_mergeSort trans total (a :: l)
  rw [hcons] at hsorted
  have hbehind : ∀ b ∈ behind, le a b :=
    (List.pairwise_cons.1 (List.pairwise_append.1 hsorted).2.1).1
  have hfront : (before ++ behind).filter (fun b => !le a b) = before := by
    rw [List.filter_append, List.filter_eq_self.2 hbefore, List.filter_eq_nil_iff.2,
      List.append_nil]
    intro b hb
    simp [hbehind b hb]
  have hback : (before ++ behind).filter (le a) = behind := by
    rw [List.filter_append, List.filter_eq_self.2 hbehind, List.filter_eq_nil_iff.2,
      List.nil_append]
    intro b hb
    simpa using hbefore b hb
  rw [hcons, hrest, hfront, hback]
  exact ⟨rfl, rfl⟩

/-- Entries may be left out before or after they are sorted, also where some are level. -/
theorem mergeSort_filter (trans : ∀ a b c, le a b = true → le b c = true → le a c = true)
    (total : ∀ a b, (le a b || le b a) = true) (p : α → Bool) (l : List α) :
    (l.filter p).mergeSort le = (l.mergeSort le).filter p := by
  induction l with
  | nil => simp
  | cons a l ih =>
      obtain ⟨hcons, hrest⟩ := mergeSort_cons_eq trans total a l
      by_cases ha : p a
      · obtain ⟨hcons', -⟩ := mergeSort_cons_eq trans total a (l.filter p)
        rw [List.filter_cons_of_pos ha, hcons', hcons, ih, List.filter_append,
          List.filter_cons_of_pos ha, List.filter_comm, List.filter_comm (q := le a)]
      · rw [List.filter_cons_of_neg ha, ih, hcons, List.filter_append, List.filter_cons_of_neg ha,
          ← List.filter_append, hrest]

/-- The newest entry comes first. -/
theorem mergeSort_snoc (trans : ∀ a b c, le a b = true → le b c = true → le a c = true)
    (total : ∀ a b, (le a b || le b a) = true)
    (anti : ∀ a b, le a b = true → le b a = true → revision a = revision b)
    (hl : (l.map revision).Nodup) {x : α} (hx : ∀ a ∈ l, le a x = false) :
    (l ++ [x]).mergeSort le = x :: l.mergeSort le := by
  have hfirst : ∀ a ∈ l.mergeSort le, le x a = true := fun a ha => by
    have htotal := total x a
    rwa [hx a (List.mem_mergeSort.1 ha), Bool.or_false] at htotal
  refine List.Perm.eq_of_pairwise (fun a b ha hb hab hba => ?_)
    (List.pairwise_mergeSort trans total _)
    (List.pairwise_cons.2 ⟨hfirst, List.pairwise_mergeSort trans total l⟩)
    ((List.mergeSort_perm _ le).trans ((List.perm_append_singleton x l).trans
      ((List.mergeSort_perm l le).symm.cons x)))
  have ha' := List.mem_mergeSort.1 ha
  rcases List.mem_cons.1 hb with rfl | hb
  · rcases List.mem_append.1 ha' with ha' | ha'
    · rw [hx a ha'] at hab
      exact absurd hab Bool.false_ne_true
    · exact List.mem_singleton.1 ha'
  · have hb' := List.mem_mergeSort.1 hb
    rcases List.mem_append.1 ha' with ha' | ha'
    · exact List.inj_on_of_nodup_map hl ha' hb' (anti a b hab hba)
    · obtain rfl := List.mem_singleton.1 ha'
      rw [hx b hb'] at hba
      exact absurd hba Bool.false_ne_true

end Sorted

/-! ## Shelves -/

/-- What is read of all assets, each under its id, the newest first. -/
abbrev Shelf := List (String × Except Fault Asset)

/-- The assets on a shelf, if all can be read. -/
def Shelf.items (k : Shelf) : Except Fault (List Asset) := k.mapM fun q => q.2

/-- The page of all that is on a shelf. -/
def Shelf.page (k : Shelf) : Except Fault Page := do
  return ⟨← Shelf.items k, false⟩

/-- Puts something in front, in the place of what is under its id. -/
def putFirst {α : Type} (k : List (String × α)) (p : String × α) : List (String × α) :=
  p :: k.filter fun q => decide (q.1 ≠ p.1)

/-- The effect of a change on the shelf. -/
def shelfEffect (now : Millis) : Change → Shelf → Shelf
  | .ingest a, k => putFirst k (a.id, a.readBack now)
  | .remove id, k => k.filter fun q => decide (q.1 ≠ id)
  | _, k => k

/-- Where nothing is removed, what is ingested is put on the shelf. -/
theorem replay_shelfEffect {L : List (Millis × Change)} (h : ∀ p ∈ L, ∀ id, p.2 ≠ .remove id)
    (k : Shelf) :
    replay shelfEffect L k
      = ((L.filterMap ingested?).map fun p => (p.2.id, p.2.readBack p.1)).foldl putFirst k := by
  induction L generalizing k with
  | nil => rfl
  | cons p L ih =>
      obtain ⟨now, c⟩ := p
      obtain ⟨hc, hL⟩ := List.forall_mem_cons.1 h
      show replay shelfEffect L (shelfEffect now c k) = _
      rw [ih hL]
      cases c with
      | remove id => exact absurd rfl (hc id)
      | _ => rfl

section Put

variable {α : Type}

/-- What is put first is in front of what was there, but for the ids that are put. -/
theorem foldl_putFirst (ps k : List (String × α)) :
    ps.foldl putFirst k
      = ps.foldl putFirst [] ++ k.filter fun q => decide (q.1 ∉ ps.map (·.1)) := by
  induction ps generalizing k with
  | nil => simp
  | cons p ps ih =>
      rw [List.foldl_cons, List.foldl_cons, ih (putFirst k p), ih (putFirst [] p),
        List.append_assoc]
      have hrest : (k.filter fun q => decide (q.1 ≠ p.1)).filter
            (fun q => decide (q.1 ∉ ps.map (·.1)))
          = k.filter fun q => decide (q.1 ∉ (p :: ps).map (·.1)) := by
        rw [List.filter_filter]
        refine List.filter_congr fun q _ => ?_
        simp only [List.map_cons, List.mem_cons, not_or, Bool.decide_and, Bool.and_comm]
      congr 1
      show (p :: _).filter _ = [p].filter _ ++ _
      rw [← hrest, ← List.filter_append]
      rfl

/-- Only what is put stands on a shelf that was empty. -/
theorem mem_foldl_putFirst {ps : List (String × α)} {q : String × α}
    (h : q ∈ ps.foldl putFirst []) : q ∈ ps := by
  have hall : ∀ k : List (String × α), q ∈ ps.foldl putFirst k → q ∈ ps ∨ q ∈ k := by
    clear h
    induction ps with
    | nil => exact fun k h => .inr h
    | cons p ps ih =>
        intro k h
        rcases ih _ h with h | h
        · exact .inl (List.mem_cons_of_mem _ h)
        · rcases List.mem_cons.1 h with rfl | h
          · exact .inl List.mem_cons_self
          · exact .inr (List.mem_of_mem_filter h)
  exact (hall [] h).resolve_right List.not_mem_nil

/-- **Twice.** To put the same once more changes nothing. -/
theorem foldl_putFirst_twice (ps k : List (String × α)) :
    ps.foldl putFirst (ps.foldl putFirst k) = ps.foldl putFirst k := by
  have hnone : (ps.foldl putFirst []).filter (fun q => decide (q.1 ∉ ps.map (·.1))) = [] :=
    List.filter_eq_nil_iff.2 fun q hq hid =>
      of_decide_eq_true hid (List.mem_map_of_mem (mem_foldl_putFirst hq))
  rw [foldl_putFirst ps (ps.foldl putFirst k), foldl_putFirst ps k, List.filter_append, hnone,
    List.filter_filter]
  simp only [Bool.and_self, List.nil_append]

/-- What is told of a shelf may be told of what is put on it. -/
theorem map_foldl_putFirst {β : Type} (f : α → β) (ps k : List (String × α)) :
    (ps.foldl putFirst k).map (fun q => (q.1, f q.2))
      = (ps.map fun q => (q.1, f q.2)).foldl putFirst (k.map fun q => (q.1, f q.2)) := by
  induction ps generalizing k with
  | nil => rfl
  | cons p ps ih =>
      rw [List.foldl_cons, ih, List.map_cons, List.foldl_cons]
      congr 1
      unfold putFirst
      rw [List.map_cons, List.filter_map]
      rfl

end Put

/-! ## Stores that list their shelf -/

/-- A kind of store that lists its shelf, as long as all was `written` before what is written
next. -/
structure Shelving (σ : Type) [Backend σ] where
  written : Millis → σ → Prop
  shelf : σ → Except Fault Shelf
  mono : ∀ {t t' s}, written t s → t ≤ t' → written t' s
  made : ∀ {t now c s s'}, written t s → t ≤ now → Backend.change now c s = (.ok (), s') →
    written now s' ∧ shelf s' = (shelf s).map (shelfEffect now c)
  failed : ∀ {t now c e s s'}, written t s → Backend.change now c s = (.error e, s') →
    written t s' ∧ shelf s' = shelf s
  search : ∀ {t s}, written t s → (Backend.search "" {} s).1 = (shelf s).bind Shelf.page

/-- **Runs.** A run whose clock does not go back puts on the shelf what it ingests. -/
theorem Shelving.run_eq {σ α : Type} [Backend σ] (v : Shelving σ) (source : Extractor)
    (tree : FileTree) (r : Routine α) {time : Nat → Millis} {s : σ}
    (hclock : ∀ i j, i ≤ j → time i ≤ time j) (h : v.written (time 0) s) :
    v.written (time (r.transcript source tree time s).length) (r.run source tree time s).2
      ∧ v.shelf (r.run source tree time s).2
        = (v.shelf s).map (replay shelfEffect (r.transcript source tree time s).made) := by
  have hlater {time : Nat → Millis} (hclock : ∀ i j, i ≤ j → time i ≤ time j) :
      ∀ i j, i ≤ j → (time ∘ (· + 1)) i ≤ (time ∘ (· + 1)) j := fun i j hij =>
    hclock _ _ (Nat.succ_le_succ hij)
  induction r generalizing time s with
  | done x =>
      refine ⟨h, ?_⟩
      show v.shelf s = _
      cases v.shelf s <;> rfl
  | clock next ih => exact ih _ (hlater hclock) (v.mono h (hclock 0 1 (Nat.zero_le 1)))
  | discover next ih => exact ih _ (hlater hclock) (v.mono h (hclock 0 1 (Nat.zero_le 1)))
  | extract file next ih => exact ih _ (hlater hclock) (v.mono h (hclock 0 1 (Nat.zero_le 1)))
  | change c next ih =>
      rw [Routine.run, Routine.transcript]
      rcases hchange : Backend.change (time 0) c s with ⟨outcome, s'⟩
      cases outcome with
      | ok _ =>
          obtain ⟨hwritten, hshelf⟩ := v.made h (Int.le_refl _) hchange
          obtain ⟨hlast, hrest⟩ := ih (.ok ()) (hlater hclock)
            (v.mono hwritten (hclock 0 1 (Nat.zero_le 1)))
          refine ⟨hlast, hrest.trans ?_⟩
          rw [hshelf]
          cases v.shelf s <;> rfl
      | error e =>
          obtain ⟨hwritten, hshelf⟩ := v.failed h hchange
          obtain ⟨hlast, hrest⟩ := ih (.error e) (hlater hclock)
            (v.mono hwritten (hclock 0 1 (Nat.zero_le 1)))
          exact ⟨hlast, hshelf ▸ hrest⟩

/-! ## Stores in memory -/

namespace MemoryStore

theorem newest_trans (a b c : StoredAsset) (hab : decide (b.revision ≤ a.revision) = true)
    (hbc : decide (c.revision ≤ b.revision) = true) : decide (c.revision ≤ a.revision) = true :=
  decide_eq_true (Nat.le_trans (of_decide_eq_true hbc) (of_decide_eq_true hab))

theorem newest_total (a b : StoredAsset) :
    (decide (b.revision ≤ a.revision) || decide (a.revision ≤ b.revision)) = true := by
  rw [Bool.or_eq_true, decide_eq_true_eq, decide_eq_true_eq]
  exact Nat.le_total _ _

theorem newest_anti (a b : StoredAsset) (hab : decide (b.revision ≤ a.revision) = true)
    (hba : decide (a.revision ≤ b.revision) = true) : a.revision = b.revision :=
  Nat.le_antisymm (of_decide_eq_true hba) (of_decide_eq_true hab)

/-- Holds when every asset has a revision of its own, and none is to be given out. -/
structure Revised (m : MemoryStore) : Prop where
  given : ∀ s ∈ m.assets, s.revision ≤ m.revision
  nodup : (m.assets.map (·.revision)).Nodup

/-- What is read of the assets, the newest first. -/
def shelf (m : MemoryStore) : Shelf :=
  (StoredAsset.newestFirst m.assets).map fun s => (s.asset.id, s.decode)

/-- Taking away what is under an id takes it off the shelf. -/
theorem newestFirst_filter (assets : List StoredAsset) (id : String) :
    (StoredAsset.newestFirst (assets.filter (·.asset.id ≠ id))).map (fun s => (s.asset.id, s.decode))
      = ((StoredAsset.newestFirst assets).map fun s => (s.asset.id, s.decode)).filter
        fun q => decide (q.1 ≠ id) := by
  unfold StoredAsset.newestFirst
  rw [mergeSort_filter newest_trans newest_total, List.filter_map]
  rfl

theorem Revised.remove {m : MemoryStore} (h : m.Revised) (id : String) : (m.remove id).Revised where
  given s hs := h.given s (List.mem_of_mem_filter hs)
  nodup := h.nodup.sublist (List.filter_sublist.map _)

theorem Revised.ingest {m : MemoryStore} (h : m.Revised) (now : Millis) (a : Asset) :
    (m.ingest now a).Revised ∧ (m.ingest now a).shelf = putFirst m.shelf (a.id, a.readBack now) := by
  have hkept := h.remove a.id
  have hlt : ∀ s ∈ m.assets.filter (·.asset.id ≠ a.id), s.revision < m.revision + 1 := fun s hs =>
    Nat.lt_succ_of_le (hkept.given s hs)
  refine ⟨⟨List.forall_mem_append.2 ⟨fun s hs => Nat.le_of_lt (hlt s hs),
    List.forall_mem_singleton.2 (Nat.le_refl _)⟩, ?_⟩, ?_⟩
  · show (List.map _ (m.assets.filter _ ++ [_])).Nodup
    rw [List.map_append]
    refine hkept.nodup.append (List.nodup_singleton _) fun n hn hn' => ?_
    obtain ⟨s, hs, rfl⟩ := List.mem_map.1 hn
    exact absurd (List.mem_singleton.1 hn') (Nat.ne_of_lt (hlt s hs))
  · have hsort : StoredAsset.newestFirst (m.ingest now a).assets
        = .ofAsset now (m.revision + 1) a
          :: StoredAsset.newestFirst (m.assets.filter (·.asset.id ≠ a.id)) :=
      mergeSort_snoc newest_trans newest_total newest_anti hkept.nodup fun s hs =>
        decide_eq_false (Nat.not_le.2 (hlt s hs))
    unfold shelf
    rw [hsort, List.map_cons, newestFirst_filter]
    rfl

/-- A store in memory lists its shelf, whatever the clock tells. -/
def shelving : Shelving MemoryStore where
  written _ m := m.Revised
  shelf m := .ok m.shelf
  mono h _ := h
  made {t now c s s'} h _ hchange := by
    obtain rfl := (Prod.mk.inj hchange).2
    cases c with
    | ingest a =>
        obtain ⟨hrevised, hshelf⟩ := h.ingest now a
        exact ⟨hrevised, congrArg Except.ok hshelf⟩
    | remove id => exact ⟨h.remove id, congrArg Except.ok (newestFirst_filter _ id)⟩
    | record platform fields =>
        exact ⟨⟨fun s hs => Nat.le_succ_of_le (h.given s hs), h.nodup⟩, rfl⟩
    | relate e =>
        show (s.relate e).Revised ∧ Except.ok (s.relate e).shelf = _
        rw [relate_eq]
        exact ⟨⟨h.given, h.nodup⟩, rfl⟩
    | clear origin kind => exact ⟨⟨h.given, h.nodup⟩, rfl⟩
    | logError platform message => exact ⟨⟨h.given, h.nodup⟩, rfl⟩
  failed h hchange := nomatch (Prod.mk.inj hchange).1
  search {t s} h := by
    have hall : s.hits "" {} = StoredAsset.newestFirst s.assets := by
      unfold hits
      rw [List.filter_eq_self.2 fun a _ => ?_]
      show (Text.contains [] _ || Text.contains [] _) && true = true
      rw [Text.contains_nil_left]
      rfl
    show (do return (⟨← (s.hits "" {}).mapM StoredAsset.decode, false⟩ : Page)) = Shelf.page s.shelf
    unfold Shelf.page Shelf.items shelf
    rw [hall, List.mapM_map]
    rfl

end MemoryStore

/-! ## Stores in databases -/

namespace RelationalStore

open Database

theorem rows_trans (a b c : AssetRow)
    (hab : noOlder (a.updatedAt, a.revision) (b.updatedAt, b.revision) = true)
    (hbc : noOlder (b.updatedAt, b.revision) (c.updatedAt, c.revision) = true) :
    noOlder (a.updatedAt, a.revision) (c.updatedAt, c.revision) = true :=
  Store.noOlder_trans _ _ _ hab hbc

theorem rows_total (a b : AssetRow) :
    (noOlder (a.updatedAt, a.revision) (b.updatedAt, b.revision)
      || noOlder (b.updatedAt, b.revision) (a.updatedAt, a.revision)) = true :=
  Store.noOlder_total _ _

theorem rows_anti (a b : AssetRow)
    (hab : noOlder (a.updatedAt, a.revision) (b.updatedAt, b.revision) = true)
    (hba : noOlder (b.updatedAt, b.revision) (a.updatedAt, a.revision) = true) :
    a.revision = b.revision := by
  rw [Store.noOlder_iff] at hab hba
  omega

/-- Holds when every row has a revision of its own, and none was written after a time. -/
structure Revised (t : Millis) (rows : List AssetRow) : Prop where
  past : ∀ r ∈ rows, r.updatedAt ≤ t
  nodup : (rows.map (·.revision)).Nodup

/-- What is read of rows, the newest first. -/
def shelfOf (rows : List AssetRow) : Shelf :=
  (AssetRow.newestFirst rows).map fun r => (r.id, r.decode)

theorem shelfOf_filter (rows : List AssetRow) (id : String) :
    shelfOf (rows.filter (·.id ≠ id)) = (shelfOf rows).filter fun q => decide (q.1 ≠ id) := by
  unfold shelfOf AssetRow.newestFirst
  rw [mergeSort_filter rows_trans rows_total, List.filter_map]
  rfl

theorem Revised.mono {t t' : Millis} {rows : List AssetRow} (h : Revised t rows) (ht : t ≤ t') :
    Revised t' rows := ⟨fun r hr => Int.le_trans (h.past r hr) ht, h.nodup⟩

theorem Revised.filter {t : Millis} {rows : List AssetRow} (h : Revised t rows)
    (p : AssetRow → Bool) : Revised t (rows.filter p) where
  past r hr := h.past r (List.mem_of_mem_filter hr)
  nodup := h.nodup.sublist (List.filter_sublist.map _)

/-- A row that is written is put first, if the clock has not gone back. -/
theorem Revised.ingest {t now : Millis} {rows : List AssetRow} (h : Revised t rows) (ht : t ≤ now)
    (a : Asset) :
    Revised now (rows.filter (·.id ≠ a.id)
        ++ [.ofAsset now (nextRevision (rows.map (·.revision))) a])
      ∧ shelfOf (rows.filter (·.id ≠ a.id)
        ++ [.ofAsset now (nextRevision (rows.map (·.revision))) a])
        = putFirst (shelfOf rows) (a.id, a.readBack now) := by
  have hkept := (h.mono ht).filter (·.id ≠ a.id)
  have hlt : ∀ r ∈ rows.filter (·.id ≠ a.id), r.revision < nextRevision (rows.map (·.revision)) :=
    fun r hr => Store.lt_nextRevision (List.mem_map_of_mem (List.mem_of_mem_filter hr))
  refine ⟨⟨List.forall_mem_append.2 ⟨hkept.past, List.forall_mem_singleton.2 (Int.le_refl _)⟩, ?_⟩,
    ?_⟩
  · rw [List.map_append]
    refine hkept.nodup.append (List.nodup_singleton _) fun n hn hn' => ?_
    obtain ⟨r, hr, rfl⟩ := List.mem_map.1 hn
    exact absurd (List.mem_singleton.1 hn') (Nat.ne_of_lt (hlt r hr))
  · have hsort : AssetRow.newestFirst (rows.filter (·.id ≠ a.id)
          ++ [.ofAsset now (nextRevision (rows.map (·.revision))) a])
        = .ofAsset now (nextRevision (rows.map (·.revision))) a
          :: AssetRow.newestFirst (rows.filter (·.id ≠ a.id)) :=
      mergeSort_snoc rows_trans rows_total rows_anti hkept.nodup fun r hr =>
        Store.noOlder_eq_false (hkept.past r hr) (hlt r hr)
    have hfilter := shelfOf_filter rows a.id
    unfold shelfOf at hfilter ⊢
    rw [hsort, List.map_cons, hfilter, decode_ofAsset]
    rfl

/-- What is read of the assets of a database that has their table. -/
def readShelf (d : Database) : Except Fault Shelf := (rowsOf assetTable d.assets).map shelfOf

/-- Holds when the rows of a database are in order. -/
def Written (t : Millis) (d : Database) : Prop := ∀ rows, d.assets = some rows → Revised t rows

theorem Written.createTables {t : Millis} {d : Database} (h : Written t d) :
    Written t d.createTables := by
  intro rows hrows
  obtain rfl := Option.some.inj hrows
  cases hassets : d.assets with
  | some rows => exact h rows hassets
  | none => exact ⟨fun _ h => absurd h List.not_mem_nil, List.nodup_nil⟩

theorem written_of_change {t now : Millis} {c : Change} {d d' : Database} (h : Written t d)
    (ht : t ≤ now) (hchange : Database.change now c d = (.ok (), d')) :
    Written now d' ∧ readShelf d' = (readShelf d).map (shelfEffect now c) := by
  have hkept : Written now d := fun rows hrows => (h rows hrows).mono ht
  have hsame (d' : Database) (hassets : d'.assets = d.assets) (c : Change)
      (hc : ∀ k, shelfEffect now c k = k) :
      Written now d' ∧ readShelf d' = (readShelf d).map (shelfEffect now c) := by
    unfold Written readShelf
    rw [hassets]
    refine ⟨hkept, ?_⟩
    cases rowsOf assetTable d.assets with
    | error e => rfl
    | ok rows => exact congrArg Except.ok (hc _).symm
  cases makes_of_change hchange with
  | @ingest a rows hrows =>
      obtain ⟨hrevised, hshelf⟩ := (h rows hrows).ingest ht a
      refine ⟨fun rows' h' => Option.some.inj h' ▸ hrevised, ?_⟩
      unfold readShelf
      rw [hrows]
      exact congrArg Except.ok hshelf
  | @remove id rows edges hrows hedges =>
      refine ⟨fun rows' h' => Option.some.inj h' ▸ (hkept rows hrows).filter _, ?_⟩
      unfold readShelf
      rw [hrows]
      exact congrArg Except.ok (shelfOf_filter rows id)
  | record => exact hsame _ rfl _ fun _ => rfl
  | relate => exact hsame _ rfl _ fun _ => rfl
  | clear => exact hsame _ rfl _ fun _ => rfl
  | logError => exact hsame _ rfl _ fun _ => rfl

/-- Preparing leaves a connection and the tables made, after which there is nothing to prepare. -/
theorem prepare_of_prepared {s s' : RelationalStore} (h : s.prepare = (.ok (), s')) (d : Database) :
    prepare { s' with database := d } = (.ok (), { s' with database := d }) := by
  have hready : s'.isOpen = true ∧ s'.hasSchema = true := by
    obtain ⟨database, obstacle, isOpen, hasSchema⟩ := s
    unfold prepare connect at h
    cases isOpen <;> cases obstacle <;> cases hasSchema <;> simp at h <;> simp [← h]
  unfold prepare connect
  simp [hready.1, hready.2]

/-- A statement runs on the prepared database, or nothing happens. -/
theorem execute_cases {α : Type} {statement : Statement α} {s s' : RelationalStore}
    {r : Except Fault α} (h : s.execute statement = (r, s')) :
    (∃ e, r = .error e ∧ s' = s)
      ∨ ∃ s₁ d, s.prepare = (.ok (), s₁) ∧ statement s₁.database = (r, d)
        ∧ s' = { s₁ with database := d } := by
  unfold execute at h
  rcases hprepare : s.prepare with ⟨e | ⟨⟩, s₁⟩
  · rw [hprepare] at h
    obtain ⟨rfl, rfl⟩ := Prod.mk.inj h
    refine .inl ⟨e, rfl, ?_⟩
    obtain ⟨database, obstacle, isOpen, hasSchema⟩ := s
    unfold prepare connect at hprepare
    cases isOpen <;> cases obstacle <;> cases hasSchema <;> simp at hprepare <;> simp [← hprepare]
  · rw [hprepare] at h
    rcases hstatement : statement s₁.database with ⟨r', d⟩
    obtain ⟨rfl, rfl⟩ : r' = r ∧ { s₁ with database := d } = s' := by
      simpa only [hstatement, Prod.mk.injEq] using h
    exact .inr ⟨s₁, d, rfl, hstatement, rfl⟩

/-- A query is answered from the prepared database. -/
theorem query_of_prepared {α : Type} {s s₁ : RelationalStore} (h : s.prepare = (.ok (), s₁))
    (q : Database → Except Fault α) : (s.query q).1 = q s₁.database := by
  unfold query
  rw [h]

theorem Written.prepare {t : Millis} {s : RelationalStore} (h : Written t s.database) :
    Written t s.prepare.2.database := by
  obtain heq | heq := s.prepare_database
  · exact heq ▸ h
  · exact heq ▸ h.createTables

/-- A search for nothing in particular lists the shelf. -/
theorem search_eq (d : Database) : d.search "" {} = (readShelf d).bind Shelf.page := by
  unfold Database.search Database.hits readShelf
  cases d.assets with
  | none => rfl
  | some rows =>
      have hall : rows.filter (AssetRow.isFound "" {}) = rows :=
        List.filter_eq_self.2 fun _ _ => rfl
      show (do return (⟨← (AssetRow.newestFirst (rows.filter _)).mapM AssetRow.decode, false⟩ : Page))
        = Shelf.page (shelfOf rows)
      unfold Shelf.page Shelf.items shelfOf
      rw [hall, List.mapM_map]
      rfl

/-- A store in a database lists its shelf, if the clock has not gone back behind what was written. -/
def shelving : Shelving RelationalStore where
  written t s := Written t s.database
  shelf s := (s.query readShelf).1
  mono h ht rows hrows := (h rows hrows).mono ht
  made {t now c s s'} h ht hchange := by
    obtain ⟨e, he, -⟩ | ⟨s₁, d, hprepare, hstatement, rfl⟩ := execute_cases hchange
    · exact nomatch he
    · have hwritten := h.prepare
      rw [hprepare] at hwritten
      rw [query_of_prepared hprepare, query_of_prepared (prepare_of_prepared hprepare d)]
      exact written_of_change hwritten ht hstatement
  failed {t now c e s s'} h hchange := by
    obtain ⟨_, -, rfl⟩ | ⟨s₁, d, hprepare, hstatement, rfl⟩ := execute_cases hchange
    · exact ⟨h, rfl⟩
    · have hwritten := h.prepare
      rw [hprepare] at hwritten
      rw [query_of_prepared hprepare, query_of_prepared (prepare_of_prepared hprepare d),
        change_error hstatement]
      exact ⟨hwritten, rfl⟩
  search {t s} h := by
    show (s.query (Database.search "" {})).1 = (s.query readShelf).1.bind Shelf.page
    unfold query
    rcases s.prepare with ⟨_ | _, s₁⟩
    · rfl
    · exact search_eq s₁.database

end RelationalStore

end ContentGraph
