import ContentGraph.Proofs.Run.Ledgers
import ContentGraph.Proofs.Run.Locators
import ContentGraph.Proofs.Run.Steady
import ContentGraph.Proofs.Store.Shelf

/-!
# A pass that is run once more

Two passes of an extractor over a store, one after the other, of which the second gets the answers
that the first got but for their dates. Main statement: if no change fails and the clock does not go
back, the second pass reports what the first did and leaves the assets, their order, the edges and
the ledger as the first left them, but for times (`settled_of_rerun`). In the ledger of a database a
value that passes do not write is what is read of its own text, which may be another one
(`costRerun_unsettled`).
-/

namespace ContentGraph

open Discovery (Candidate)
open Store (Change Fault Backend)

/-! ## Pages -/

/-- A page without the times of extraction. -/
def Page.undated (p : Page) : Page := { p with items := p.items.map Asset.undated }

/-- What is read of a shelf without the times of extraction. -/
def Shelf.undated (k : Shelf) : Shelf := k.map fun q => (q.1, q.2.map Asset.undated)

/-- The page of a shelf, but for the times of extraction, is that of the shelf without them. -/
theorem Shelf.page_undated (k : Shelf) :
    (Shelf.page k).map Page.undated = Shelf.page (Shelf.undated k) := by
  have hitems : (Shelf.items k).map (List.map Asset.undated) = Shelf.items (Shelf.undated k) := by
    unfold Shelf.items Shelf.undated
    induction k with
    | nil => rfl
    | cons q k ih =>
        obtain ⟨id, _ | a⟩ := q
        · rfl
        · rw [List.map_cons, List.mapM_cons, List.mapM_cons, ← ih]
          generalize k.mapM (fun q => q.2) = read
          cases read <;> rfl
  unfold Shelf.page
  rw [← hitems]
  cases Shelf.items k <;> rfl

/-- What is told alike of two lists tells alike what follows from it. -/
theorem map_eq_of_map_eq {α β γ : Type} {f : α → β} {g : α → γ}
    (hfg : ∀ x y, f x = f y → g x = g y) {xs ys : List α} (h : xs.map f = ys.map f) :
    xs.map g = ys.map g := by
  induction xs generalizing ys with
  | nil =>
      obtain rfl := List.map_eq_nil_iff.1 h.symm
      rfl
  | cons x xs ih =>
      cases ys with
      | nil => exact nomatch h
      | cons y ys =>
          obtain ⟨hx, hxs⟩ := List.cons.inj h
          rw [List.map_cons, List.map_cons, hfg x y hx, ih hxs]

namespace Pass

variable {platform : String} {T T₁ T₂ : Transcript} {o o₁ o₂ : RunOutcome}

/-! ## Edges -/

/-- Replacing the same edges once more changes none. -/
theorem mem_foldl_relink_twice {holds : String → Bool} {entries : List (String × List String)}
    {edges : List Edge} {e : Edge} :
    e ∈ entries.foldl (relink holds) (entries.foldl (relink holds) edges)
      ↔ e ∈ entries.foldl (relink holds) edges := by
  rw [mem_foldl_relink, mem_foldl_relink]
  cases lastWith (fun entry => e.isImportOf entry.1) entries <;> exact Iff.rfl

/-! ## The shelf -/

/-- Passes that get the same answers put the same on the shelf, but for the dates. -/
theorem Faultless.puts_undated {listing listing' : Except Discovery.Fault (List Candidate)}
    (h₁ : Faultless platform listing T₁ o₁) (h₂ : Faultless platform listing' T₂ o₂)
    (hsame : T₂.answers = T₁.answers) :
    T₂.ingests.map (fun p => (p.2.id, (p.2.readBack p.1).map Asset.undated))
      = T₁.ingests.map fun p => (p.2.id, (p.2.readBack p.1).map Asset.undated) := by
  refine map_eq_of_map_eq (fun p q hpq => ?_) (h₂.ingests_undated h₁ hsame)
  have hid : p.2.undated.id = q.2.undated.id := congrArg Asset.id hpq
  change p.2.id = q.2.id at hid
  rw [hid, Asset.readBack_undated hpq p.1 q.1]

end Pass

/-! ## Two passes -/

/-- Two passes of an extractor over a store, one after the other. -/
structure Rerun (σ : Type) where
  source : Extractor
  /-- The files of the first pass. -/
  before : FileTree
  /-- The files of the second pass. -/
  after : FileTree
  /-- The clock at each step. -/
  time : Nat → Millis
  /-- The step at which the second pass starts. -/
  start : Nat
  store : σ

namespace Rerun

variable {σ : Type} [Backend σ]

/-- What the first pass asks for and is answered. -/
def firstTranscript (x : Rerun σ) : Transcript :=
  (Pass.routine x.source.platform).transcript x.source x.before x.time x.store

/-- The outcome of the first pass, and what it leaves. -/
def first (x : Rerun σ) : RunOutcome × σ :=
  (Pass.routine x.source.platform).run x.source x.before x.time x.store

/-- What the second pass asks for and is answered. -/
def secondTranscript (x : Rerun σ) : Transcript :=
  (Pass.routine x.source.platform).transcript x.source x.after (fun i => x.time (x.start + i))
    x.first.2

/-- The outcome of the second pass, and what it leaves. -/
def second (x : Rerun σ) : RunOutcome × σ :=
  (Pass.routine x.source.platform).run x.source x.after (fun i => x.time (x.start + i)) x.first.2

/-- What is seen after the first pass. -/
theorem seen_first {α : Type} {effect : Millis → Change → α → α} (v : View σ α effect)
    (x : Rerun σ) : v.seen x.first.2 = replay effect x.firstTranscript.made (v.seen x.store) :=
  v.run_eq _ _ _ _ _

/-- What is seen after the second pass. -/
theorem seen_second {α : Type} {effect : Millis → Change → α → α} (v : View σ α effect)
    (x : Rerun σ) :
    v.seen x.second.2 = replay effect x.secondTranscript.made (v.seen x.first.2) :=
  v.run_eq _ _ _ _ _

/-- Holds when the second pass gets the answers of the first but for their dates, no change fails,
and the clock does not go back, also not behind what is in the store. -/
structure Repeats (shelving : Shelving σ) (x : Rerun σ) : Prop where
  answers : x.secondTranscript.answers = x.firstTranscript.answers
  firstNoFault : x.firstTranscript.NoFault
  secondNoFault : x.secondTranscript.NoFault
  clock : ∀ i j, i ≤ j → x.time i ≤ x.time j
  start : x.firstTranscript.length ≤ x.start
  written : shelving.written (x.time 0) x.store
  /-- The time that the second pass takes is a number that the ledger can tell. -/
  duration : x.second.1.report.duration < Word.count 64

/-- What a second pass leaves as the first left it. -/
structure Settled (sight : Sight σ) (platform : String) (first second : RunOutcome × σ) : Prop where
  outcome : second.1.untimed = first.1.untimed
  assets : ∀ id, ((sight.contents.seen second.2).assets id).map (Option.map Asset.undated)
    = ((sight.contents.seen first.2).assets id).map (Option.map Asset.undated)
  /-- All assets in their order. -/
  search : (Backend.search "" {} second.2).1.map Page.undated
    = (Backend.search "" {} first.2).1.map Page.undated
  edges : ∀ e, e ∈ (sight.contents.seen second.2).edges ↔ e ∈ (sight.contents.seen first.2).edges
  otherLedgers : ∀ other, other ≠ platform →
    sight.ledger.seen second.2 other = sight.ledger.seen first.2 other
  /-- The ledger of a pass that completes, if it can be written and read again. -/
  ledger : first.1.isCompleted = true → ∃ e, sight.ledger.seen first.2 platform = .ok (some e)
    ∧ ((∀ p ∈ e.fields, (sight.reread p.2).isSome = true) →
      ∃ e', sight.ledger.seen second.2 platform = .ok (some e')
        ∧ Pass.ToldAgain sight.reread e.fields e'.fields)
  unrecorded : first.1.isCompleted = false →
    sight.ledger.seen second.2 platform = sight.ledger.seen first.2 platform

end Rerun

namespace Pass

open Rerun

variable {σ : Type} [Backend σ]

section Settled

variable {x : Rerun σ} {listing listing' : Except Discovery.Fault (List Candidate)}
  (h₁ : Faultless x.source.platform listing x.firstTranscript x.first.1)
  (h₂ : Faultless x.source.platform listing' x.secondTranscript x.second.1)
  (hsame : x.secondTranscript.answers = x.firstTranscript.answers)

include h₁ h₂ hsame

theorem assets_of_rerun (v : View σ AssetsSeen assetEffect) (id : String) :
    (v.seen x.second.2 id).map (Option.map Asset.undated)
      = (v.seen x.first.2 id).map (Option.map Asset.undated) := by
  have hfirst : v.seen x.first.2 = readLast x.firstTranscript.ingests (v.seen x.store) :=
    (seen_first v x).trans (replay_assetEffect _ h₁.keeps)
  have hsecond : v.seen x.second.2 = readLast x.secondTranscript.ingests (v.seen x.first.2) :=
    (seen_second v x).trans (replay_assetEffect _ h₂.keeps)
  rw [hsecond, hfirst]
  refine h₂.readLast_undated h₁ hsame fun _ hnone => congrArg _ ?_
  -- where nothing is ingested all is as it was
  unfold Transcript.lastIngest? at hnone
  unfold readLast
  rw [hnone]

theorem edges_of_rerun (v : View σ (List Edge) edgeEffect) (e : Edge) :
    e ∈ v.seen x.second.2 ↔ e ∈ v.seen x.first.2 := by
  rw [seen_second, seen_first, h₂.edges, h₁.edges, Transcript.entries_eq hsame]
  exact mem_foldl_relink_twice

/-- What is put on the shelf once more is there already. -/
theorem shelf_twice (k : Shelf) :
    Shelf.undated (replay shelfEffect x.secondTranscript.made
        (replay shelfEffect x.firstTranscript.made k))
      = Shelf.undated (replay shelfEffect x.firstTranscript.made k) := by
  have hputs (T : Transcript) : (T.ingests.map fun p => (p.2.id, p.2.readBack p.1)).map
        (fun q => (q.1, q.2.map Asset.undated))
      = T.ingests.map fun p => (p.2.id, (p.2.readBack p.1).map Asset.undated) := by
    rw [List.map_map]
    rfl
  have hundated (T : Transcript) (hT : T.Keeps) (k : Shelf) :
      Shelf.undated (replay shelfEffect T.made k)
        = (T.ingests.map fun p => (p.2.id, (p.2.readBack p.1).map Asset.undated)).foldl putFirst
          (Shelf.undated k) := by
    rw [replay_shelfEffect hT]
    unfold Shelf.undated
    rw [map_foldl_putFirst, ← hputs T]
    rfl
  rw [hundated _ h₂.keeps, hundated _ h₁.keeps, h₁.puts_undated h₂ hsame, foldl_putFirst_twice]

theorem search_of_rerun (shelving : Shelving σ) (h : x.Repeats shelving) :
    (Backend.search "" {} x.second.2).1.map Page.undated
      = (Backend.search "" {} x.first.2).1.map Page.undated := by
  obtain ⟨hwritten, hfirst⟩ := shelving.run_eq x.source x.before (routine x.source.platform) h.clock
    h.written
  change shelving.written (x.time x.firstTranscript.length) x.first.2 at hwritten
  change shelving.shelf x.first.2 = _ at hfirst
  have hclock : ∀ i j, i ≤ j → x.time (x.start + i) ≤ x.time (x.start + j) := fun i j hij =>
    h.clock _ _ (Nat.add_le_add_left hij _)
  obtain ⟨hwritten', hsecond⟩ := shelving.run_eq x.source x.after (routine x.source.platform) hclock
    (shelving.mono hwritten (h.clock _ _ h.start))
  change shelving.written _ x.second.2 at hwritten'
  change shelving.shelf x.second.2 = _ at hsecond
  rw [shelving.search hwritten', shelving.search hwritten, hsecond, hfirst]
  cases shelving.shelf x.store with
  | error e => rfl
  | ok k =>
      show (Shelf.page (replay shelfEffect x.secondTranscript.made
          (replay shelfEffect x.firstTranscript.made k))).map _
        = (Shelf.page (replay shelfEffect x.firstTranscript.made k)).map _
      rw [Shelf.page_undated, Shelf.page_undated, shelf_twice h₁ h₂ hsame]

end Settled

/-- **Once more.** A pass that gets the answers of the pass before it, but for their dates, reports
the same and leaves the assets, their order, the edges and the ledger as they were, but for times; in
the ledger a value that no pass writes becomes what is read of its text. -/
theorem settled_of_rerun (sight : Sight σ) (shelving : Shelving σ) (x : Rerun σ)
    (h : x.Repeats shelving) : Settled sight x.source.platform x.first x.second := by
  obtain ⟨listing, h₁⟩ := (yields_routine (Routine.yields_transcript x.source x.before
    (routine x.source.platform) x.time x.store)).faultless h.firstNoFault
  obtain ⟨listing', h₂⟩ := (yields_routine (Routine.yields_transcript x.source x.after
    (routine x.source.platform) (fun i => x.time (x.start + i)) x.first.2)).faultless h.secondNoFault
  change Faultless _ _ x.firstTranscript x.first.1 at h₁
  change Faultless _ _ x.secondTranscript x.second.1 at h₂
  have houtcome := h₂.untimed_eq h₁ h.answers
  have hreport := congrArg RunOutcome.report houtcome
  have hcompletes := congrArg RunOutcome.isCompleted houtcome
  change x.second.1.isCompleted = x.first.1.isCompleted at hcompletes
  obtain ⟨t₁, now₁, hledger₁⟩ := h₁.ledger sight.reread
  obtain ⟨t₂, now₂, hledger₂⟩ := h₂.ledger sight.reread
  have hfirst := (seen_first sight.ledger x).trans (hledger₁ _)
  have hsecond := (seen_second sight.ledger x).trans (hledger₂ _)
  refine ⟨houtcome, assets_of_rerun h₁ h₂ h.answers sight.assets,
    search_of_rerun h₁ h₂ h.answers shelving h, edges_of_rerun h₁ h₂ h.answers sight.edges,
    fun other hother => ?_, fun hcompleted => ?_, fun hfailed => ?_⟩
  · rw [hsecond]
    split
    · exact if_neg hother
    · rfl
  · rw [hcompleted] at hcompletes
    rw [if_pos hcompleted] at hfirst
    rw [if_pos hcompletes] at hsecond
    have hover : Routine.Over x.source x.after x.first.2 x.secondTranscript x.second.2 :=
      Routine.over_transcript _ _ _ _ _
    obtain ⟨e, he⟩ := h₂.readable sight hcompletes hover
    have hentry := congrFun hfirst x.source.platform
    rw [he, ledgerReadEffect_record] at hentry
    cases hold : sight.ledger.seen x.store x.source.platform with
    | error fault =>
        rw [hold] at hentry
        exact nomatch hentry
    | ok old =>
        rw [hold] at hentry
        obtain ⟨read, hread, rfl⟩ := readEntry_eq_ok hentry.symm
        refine ⟨_, he, fun hagain => ?_⟩
        obtain ⟨read', hread', htold⟩ := toldAgain sight hreport.symm h.duration hread hagain
        refine ⟨⟨x.source.platform, read', t₂⟩, ?_, htold⟩
        rw [hsecond, ledgerReadEffect_record, he]
        show readEntry sight.reread x.source.platform t₂ (LedgerEntry.merge read _) = _
        unfold readEntry
        rw [hread']
  · rw [hfailed] at hcompletes
    rw [hcompletes] at hsecond
    exact congrFun hsecond _

/-- An extractor of two files that link to each other and of one that cannot be parsed. -/
def datedExtractor : Extractor where
  platform := "docs"
  source := "docs"
  discover _ := .ok [⟨"/a", "a"⟩, ⟨"/b", "b"⟩, ⟨"/c", "c"⟩]
  extract _ now file :=
    let asset (id : String) : Asset :=
      ⟨id, id, "", .asset, "docs", .untyped [("extractedAt", .string now.iso)]⟩
    match file.relative with
    | "a" => .ok (some ⟨asset "a", ["b", "gone"]⟩)
    | "b" => .ok (some ⟨asset "b", ["a"]⟩)
    | _ => .error (.unparsed "/c" syntaxReason)

theorem steady_dated (tree : FileTree) : datedExtractor.Steady tree := by
  intro files _ file _ now now'
  unfold Extractor.undatedReading datedExtractor
  dsimp only
  split <;> rfl

/-- It is run twice over a store with a stale asset, edges that are replaced and a ledger. -/
def datedRerun : Rerun MemoryStore where
  source := datedExtractor
  before := {}
  after := {}
  time n := n
  start := 30
  store := {
    assets := [.ofAsset 0 1 ⟨"gone", "gone", "", .asset, "docs", .untyped []⟩]
    ledger := [⟨⟨"docs", [("errors", .ofNat 7), ("note", .string "kept")], 0⟩, 2⟩]
    edges := [⟨"a", "gone", importKind⟩, ⟨"gone", "a", importKind⟩]
    revision := 2 }

theorem settled_of_rerun_dated :
    datedRerun.Repeats MemoryStore.shelving
      ∧ Settled MemoryStore.sight "docs" datedRerun.first datedRerun.second := by
  have h : datedRerun.Repeats MemoryStore.shelving := {
    answers := (answers_of_run (steady_dated {}) _ _ (MemoryStore.noFault _ _ _ _ _)).trans
      (answers_of_run (steady_dated {}) _ _ (MemoryStore.noFault _ _ _ _ _)).symm
    firstNoFault := MemoryStore.noFault _ _ _ _ _
    secondNoFault := MemoryStore.noFault _ _ _ _ _
    clock := fun i j hij => Int.ofNat_le.2 hij
    start := by decide
    written := ⟨by decide, by decide⟩
    duration := by decide }
  exact ⟨h, settled_of_rerun MemoryStore.sight MemoryStore.shelving datedRerun h⟩

/-! ## A value that passes do not write -/

/-- The text of a value that is read of a ledger. -/
def readText (k : LedgerRead) (platform key : String) : Option String :=
  match k platform with
  | .ok (some e) => (e.fields.get? key).map Json.render
  | _ => none

/-- An extractor that finds no files is run twice over a database whose ledger tells of a cost. -/
def costRerun : Rerun RelationalStore where
  source := ⟨"p", "s", fun _ => .ok [], fun _ _ _ => .ok none⟩
  before := {}
  after := {}
  time n := n
  start := 4
  store.database.ledger := some [⟨"p", "\x7b\"costPerToken\":5.112743791158003e-8\x7d", 0, 1⟩]

theorem first_costRerun : costRerun.first.1 = ⟨true, { duration := 2 }⟩ := by decide +kernel

theorem second_costRerun : costRerun.second.1 = ⟨true, { duration := 2 }⟩ := by decide +kernel

/-- The cost that is read after the first pass is another one after the second. -/
theorem costRerun_unsettled :
    costRerun.Repeats RelationalStore.shelving
      ∧ readText (RelationalStore.sight.ledger.seen costRerun.first.2) "p" "costPerToken"
        = some "5.112743791158003e-8"
      ∧ readText (RelationalStore.sight.ledger.seen costRerun.second.2) "p" "costPerToken"
        = some "5.1127437911580036e-8" := by
  have hsteady : costRerun.source.Steady {} := fun _ hfiles _ hfile => by
    obtain rfl := Except.ok.inj hfiles
    exact absurd hfile List.not_mem_nil
  have hfirst := noFault_of_run first_costRerun rfl rfl
  have hsecond := noFault_of_run second_costRerun rfl rfl
  refine ⟨{
    answers := (answers_of_run hsteady _ _ hsecond).trans (answers_of_run hsteady _ _ hfirst).symm
    firstNoFault := hfirst
    secondNoFault := hsecond
    clock := fun i j hij => Int.ofNat_le.2 hij
    start := by decide +kernel
    written := fun _ h => nomatch h
    duration := by
      rw [second_costRerun]
      decide }, ?_, ?_⟩
  · rw [seen_first]
    decide +kernel
  · rw [seen_second, seen_first]
    decide +kernel

end Pass

end ContentGraph
