import ContentGraph.Proofs.Asset.Blob
import ContentGraph.Proofs.Store.Ledger
import ContentGraph.Proofs.Store.View
import Mathlib.Data.List.Induction
import Mathlib.Data.Prod.Lex
import Mathlib.Data.String.Basic

/-!
# The law of histories

What a store answers is a function of what was asked of it from the start. Of all that was written,
some entries have been covered by later ones; those left (`uncovered`) are the assets that are live,
the edges that stand and the platforms in the order of their last update. One more step takes away
what it covers and adds what it enters (`uncovered_append`). The law (`MemoryStore.Obeys`) tells each
answer in these terms.
-/

namespace ContentGraph

open Store (Change Fault Operation)

/-! ## Entries that later ones cover -/

section Uncovered

variable {α β : Type} (added? : α → Option β) (covers : α → β → Bool)

/-- What is entered and not covered by anything later, in the order of entry. -/
def uncovered : List α → List β
  | [] => []
  | x :: later =>
    match added? x with
    | some b => if later.any (covers · b) then uncovered later else b :: uncovered later
    | none => uncovered later

variable {added? covers}

/-- One more step takes away what it covers and adds what it enters. -/
theorem uncovered_append (L : List α) (x : α) :
    uncovered added? covers (L ++ [x])
      = (uncovered added? covers L).filter (fun b => !covers x b) ++ (added? x).toList := by
  induction L with
  | nil =>
      simp only [List.nil_append, uncovered, List.any_nil, Bool.false_eq_true, if_false,
        List.filter_nil]
      cases added? x <;> rfl
  | cons y L ih =>
      rw [List.cons_append]
      unfold uncovered
      cases added? y with
      | none => exact ih
      | some b =>
          simp only [ih, List.any_append, List.any_cons, List.any_nil, Bool.or_false]
          by_cases hL : L.any (covers · b) = true
          · simp only [hL, Bool.true_or, if_true]
          · cases hx : covers x b with
            | true => simp [hL, hx]
            | false => simp [hL, hx]

end Uncovered

/-! ## What stands after a history -/

/-- What has been asked of a store, each with its time, the first one first. -/
abbrev History := List (Millis × Operation)

namespace History

/-- The changes among what was asked. -/
def changes (h : History) : List (Millis × Change) :=
  h.filterMap fun
    | (now, .change c) => some (now, c)
    | _ => none

end History

/-- Holds when a change covers an asset: another of its id is ingested, or it is removed. -/
def coversAsset : Millis × Change → Millis × Asset → Bool
  | (_, .ingest b), p => decide (p.2.id = b.id)
  | (_, .remove id), p => decide (p.2.id = id)
  | _, _ => false

/-- The assets that are live, in the order of their last ingestion. -/
def liveAssets (L : List (Millis × Change)) : List (Millis × Asset) :=
  uncovered ingested? coversAsset L

/-- An edge that was added. -/
def related? : Millis × Change → Option Edge
  | (_, .relate e) => some e
  | _ => none

/-- Holds when a change takes an edge away: the edges of its kind that leave its origin are
cleared, or one of its ends is removed. -/
def coversEdge : Millis × Change → Edge → Bool
  | (_, .clear origin kind), e => e.origin == origin && e.kind == kind
  | (_, .remove id), e => e.touches id
  | _, _ => false

/-- The edges that were added and not taken away since. -/
def standingEdges (L : List (Millis × Change)) : List Edge := uncovered related? coversEdge L

/-- A platform whose ledger was updated, with the time. -/
def updated? : Millis × Change → Option (Millis × String)
  | (now, .record platform _) => some (now, platform)
  | _ => none

/-- Holds when a change updates the ledger of a platform again. -/
def coversUpdate : Millis × Change → Millis × String → Bool
  | (_, .record platform _), p => decide (p.2 = platform)
  | _, _ => false

/-- The platforms that have a ledger, each with the time of its last update and in their order. -/
def updatedPlatforms (L : List (Millis × Change)) : List (Millis × String) :=
  uncovered updated? coversUpdate L

/-- The fields that were given for the ledger of a platform, the last ones last. -/
def givenFields (platform : String) (L : List (Millis × Change)) : List (String × Json) :=
  L.flatMap fun
    | (_, .record p fields) => if p = platform then fields else []
    | _ => []

/-- The value that was given last for a key in the ledger of a platform. -/
def lastGiven? (platform key : String) (L : List (Millis × Change)) : Option Json :=
  (lastWith (fun p => decide (p.1 = key)) (givenFields platform L)).map (·.2)

/-! What one more change does. -/

theorem liveAssets_append (L : List (Millis × Change)) (now : Millis) (c : Change) :
    liveAssets (L ++ [(now, c)]) =
      match c with
      | .ingest a => (liveAssets L).filter (fun p => decide (p.2.id ≠ a.id)) ++ [(now, a)]
      | .remove id => (liveAssets L).filter fun p => decide (p.2.id ≠ id)
      | _ => liveAssets L := by
  unfold liveAssets
  rw [uncovered_append]
  cases c <;> simp [coversAsset, ingested?]

theorem standingEdges_append (L : List (Millis × Change)) (now : Millis) (c : Change) :
    standingEdges (L ++ [(now, c)]) =
      match c with
      | .relate e => standingEdges L ++ [e]
      | .clear origin kind =>
        (standingEdges L).filter fun e => !(e.origin == origin && e.kind == kind)
      | .remove id => (standingEdges L).filter fun e => !e.touches id
      | _ => standingEdges L := by
  unfold standingEdges
  rw [uncovered_append]
  cases c <;> simp [coversEdge, related?]

theorem updatedPlatforms_append (L : List (Millis × Change)) (now : Millis) (c : Change) :
    updatedPlatforms (L ++ [(now, c)]) =
      match c with
      | .record platform _ =>
        (updatedPlatforms L).filter (fun p => decide (p.2 ≠ platform)) ++ [(now, platform)]
      | _ => updatedPlatforms L := by
  unfold updatedPlatforms
  rw [uncovered_append]
  cases c <;> simp [coversUpdate, updated?]

/-! ## The law -/

/-- Holds when an asset is one that a search asks for. -/
def Asset.Answers (query : String) (filters : Filters) (a : Asset) : Prop :=
  (query.toList <:+: a.title.toList ∨ query.toList <:+: a.content.toList)
    ∧ (∀ s ∈ filters.source, a.source = s) ∧ ∀ t ∈ filters.type, a.type = t

/-- The order of edges in an answer, by origin, then target, then kind. -/
def Edge.Before (a b : Edge) : Prop :=
  a.origin < b.origin
    ∨ a.origin = b.origin ∧ (a.target < b.target ∨ a.target = b.target ∧ a.kind < b.kind)

theorem Asset.answers_iff {query : String} {filters : Filters} {a : Asset} :
    a.Answers query filters ↔ (a.mentions query && filters.admits a) = true := by
  have hall : ∀ {γ : Type} [BEq γ] [LawfulBEq γ] (o : Option γ) (x : γ),
      (∀ y ∈ o, x = y) ↔ o.all (· == x) = true := by
    intro γ _ _ o x
    cases o with
    | none => simp
    | some y =>
        simp only [Option.mem_def, Option.some.injEq, forall_eq', Option.all_some, beq_iff_eq]
        exact eq_comm
  unfold Asset.Answers Asset.mentions Filters.admits
  rw [Bool.and_eq_true, Bool.or_eq_true, Bool.and_eq_true, Text.contains_iff_infix,
    Text.contains_iff_infix, hall, hall]

instance (query : String) (filters : Filters) (a : Asset) : Decidable (a.Answers query filters) :=
  decidable_of_iff _ Asset.answers_iff.symm

/-- The part of the matches that fits on a page; a limit of zero is none. -/
def Filters.page (filters : Filters) (found : List (Millis × Asset)) : List (Millis × Asset) :=
  match filters.limit with
  | none | some 0 => found
  | some limit => found.take limit

theorem Filters.page_eq (filters : Filters) (found : List (Millis × Asset)) :
    filters.page found =
      match filters.effectiveLimit with
      | some limit => found.take limit
      | none => found := by
  unfold page effectiveLimit
  cases filters.limit with
  | none => rfl
  | some limit => cases limit <;> rfl

namespace MemoryStore

/-- The store behind a history, from an empty one on. -/
def after (h : History) : MemoryStore := h.foldl (fun m p => (Store.perform p.1 p.2 m).2) {}

/-- **The law.** What a store answers, told by the changes that were made of it. -/
structure Obeys (L : List (Millis × Change)) (m : MemoryStore) : Prop where
  /-- Under an id stands what was ingested last, unless it was removed since. -/
  asset : ∀ id, m.asset? id =
    match (liveAssets L).find? (fun p => decide (p.2.id = id)) with
    | some (now, a) => (a.readBack now).map some
    | none => .ok none
  /-- Of an asset that is stored the metadata is read back from its text. -/
  readBack : ∀ p ∈ liveAssets L, p.2.metadata.Fits → ∃ metadata,
    Metadata.ofBlob? (p.2.metadata.toBlob p.2.source p.1.iso) = some metadata
      ∧ p.2.readBack p.1 = .ok { p.2 with metadata }
  /-- A search shows the live assets that answer it, the last one ingested first. -/
  search : ∀ query filters,
    let found := (liveAssets L).reverse.filter fun p => decide (p.2.Answers query filters)
    m.search query filters = do
      let items ← (filters.page found).mapM fun p => p.2.readBack p.1
      return ⟨items, decide ((filters.page found).length < found.length)⟩
  /-- Shown with a page is the number of its items. -/
  total : ∀ query filters page, m.search query filters = .ok page →
    page.toJson.field? "total" = some (.ofNat page.items.length)
  /-- The edges of an asset are those that stand, each once and in their order. -/
  edges : ∀ id, (m.edgesOf id).Pairwise Edge.Before
    ∧ ∀ e, e ∈ m.edgesOf id ↔ e ∈ standingEdges L ∧ e.touches id = true
  /-- The ledger of a platform holds under each key the value that was given last. -/
  ledger : ∀ platform,
    match (updatedPlatforms L).find? (fun p => decide (p.2 = platform)) with
    | some (now, _) => ∃ fields : Fields, m.entry? platform = some ⟨platform, fields, now⟩
        ∧ fields.Sorted ∧ ∀ key, fields.get? key =
          if key ∈ LedgerEntry.reserved then none else lastGiven? platform key L
    | none => m.entry? platform = none
  /-- The last errors of a platform are told, the newest first. -/
  errors : ∀ platform limit, m.recentErrors platform limit =
    ((L.filterMap logged?).filter fun e => decide (e.platform = platform)).reverse.take limit
  /-- The report counts the live assets and tells of the platforms that were updated last. -/
  health : m.health = .connected engine (liveAssets L).length
    (((updatedPlatforms L).reverse.take 10).map fun p =>
      ⟨p.2, (lastGiven? p.2 "lastExtraction" L).bind Json.string?, p.1⟩)

end MemoryStore

/-! ## The order of edges -/

namespace Edge

/-- Where an edge stands in the order. -/
def place (e : Edge) : String ×ₗ (String ×ₗ String) := toLex (e.origin, toLex (e.target, e.kind))

theorem place_injective : Function.Injective place := by
  intro a b h
  obtain ⟨ao, at', ak⟩ := a
  obtain ⟨bo, bt, bk⟩ := b
  simpa [place] using h

theorem le_iff_place {a b : Edge} : a.le b = true ↔ a.place ≤ b.place := by
  unfold le place
  rw [Prod.Lex.toLex_le_toLex, Prod.Lex.toLex_le_toLex]
  by_cases ho : a.origin = b.origin
  · by_cases ht : a.target = b.target
    · simp [ho, ht]
    · simp [ho, ht]
  · simp [ho]

theorem before_iff_place {a b : Edge} : a.Before b ↔ a.place < b.place := by
  unfold Before place
  rw [Prod.Lex.toLex_lt_toLex, Prod.Lex.toLex_lt_toLex]

/-- Sorted, different edges stand one strictly before the other. -/
theorem pairwise_before_sorted {edges : List Edge} (h : edges.Nodup) :
    (sorted edges).Pairwise Before := by
  have hle : (sorted edges).Pairwise fun a b => a.le b = true := by
    refine List.pairwise_mergeSort ?_ ?_ edges
    · intro a b c hab hbc
      rw [le_iff_place] at *
      exact le_trans hab hbc
    · intro a b
      rw [Bool.or_eq_true, le_iff_place, le_iff_place]
      exact le_total a.place b.place
  have hne : (sorted edges).Nodup := (List.mergeSort_perm edges le).nodup_iff.2 h
  refine (hle.and hne).imp fun {a b} hab => before_iff_place.2 ?_
  exact lt_of_le_of_ne (le_iff_place.1 hab.1) fun heq => hab.2 (place_injective heq)

end Edge

/-! ## Fields that were given -/

/-- What a ledger keeps of the fields that were given. -/
def settled (given : List (String × Json)) : Fields :=
  Fields.ofList (given.filter fun p => decide (p.1 ∉ LedgerEntry.reserved))

theorem LedgerEntry.merge_settled (given : List (String × Json)) (new : Fields) :
    merge (settled given) new = settled (given ++ new) := by
  have hmerge : ∀ old : Fields, merge old new
      = (new.filter fun p => decide (p.1 ∉ reserved)).foldl (fun fs p => fs.insert p.1 p.2) old := by
    intro old
    rw [List.foldl_filter]
    unfold merge
    congr 1
    funext fs p
    by_cases hp : p.1 ∈ reserved <;> simp [hp]
  rw [hmerge]
  unfold settled Fields.ofList
  rw [List.filter_append, List.foldl_append]

theorem get?_settled (given : List (String × Json)) (key : String) :
    (settled given).get? key
      = if key ∈ LedgerEntry.reserved then none
        else (lastWith (fun p => decide (p.1 = key)) given).map (·.2) := by
  unfold settled
  rw [Fields.get?_ofList]
  unfold lastWith
  rw [List.filter_filter]
  by_cases hkey : key ∈ LedgerEntry.reserved
  · rw [if_pos hkey]
    have hnone : given.filter (fun p => decide (p.1 = key) && decide (p.1 ∉ LedgerEntry.reserved))
        = [] := by
      refine List.filter_eq_nil_iff.2 fun p _ hp => ?_
      simp only [Bool.and_eq_true, decide_eq_true_eq] at hp
      exact hp.2 (hp.1 ▸ hkey)
    rw [hnone]
    rfl
  · rw [if_neg hkey]
    congr 2
    refine List.filter_congr fun p _ => ?_
    by_cases hp : p.1 = key
    · simp [hp, hkey]
    · simp [hp]

theorem givenFields_append (platform : String) (L : List (Millis × Change)) (p : Millis × Change) :
    givenFields platform (L ++ [p]) = givenFields platform L ++ givenFields platform [p] :=
  List.flatMap_append

/-- A platform that was never updated was given nothing. -/
theorem givenFields_eq_nil {platform : String} {L : List (Millis × Change)}
    (h : ∀ p ∈ updatedPlatforms L, p.2 ≠ platform) : givenFields platform L = [] := by
  induction L using List.reverseRecOn with
  | nil => rfl
  | append_singleton L x ih =>
      obtain ⟨now, c⟩ := x
      rw [updatedPlatforms_append] at h
      rw [givenFields_append]
      cases c with
      | record q fields =>
          simp only [List.mem_append, List.mem_filter, List.mem_singleton] at h
          have hq : q ≠ platform := h (now, q) (.inr rfl)
          rw [ih fun p hp => ?_]
          · simp [givenFields, hq]
          · by_cases hpq : p.2 = q
            · exact hpq ▸ hq
            · exact h p (.inl ⟨hp, decide_eq_true hpq⟩)
      | _ =>
          rw [ih h]
          rfl

end ContentGraph
