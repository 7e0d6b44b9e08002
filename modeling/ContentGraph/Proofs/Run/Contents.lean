import ContentGraph.Proofs.Run.Turns
import ContentGraph.Proofs.Store.Replay
import ContentGraph.Proofs.Store.Views

/-!
# What a pass leaves in a store

A pass over a store that fails no change stores what its files yield, replaces the import edges of
the assets that it stored, and logs its errors. Main statement: when it completes, an id holds the
last asset that was extracted under it, its import edges are the links of that extraction to
assets of the same pass, and all else is as it was (`leaves_of_run`). What a file, an edge and the
edges of an asset add is shown for their turns (`FileGain.of_turn`, `rewires_of_turn`).
-/

namespace ContentGraph

open Discovery (Candidate)
open Routine (Yields)
open Store (Backend Change)

namespace Transcript

/-- The assets that were ingested, with the times. -/
def ingests (T : Transcript) : List (Millis × Asset) := T.made.filterMap ingested?

/-- The errors that were logged. -/
def logged (T : Transcript) : List LoggedError := T.made.filterMap logged?

@[simp] theorem ingests_append (T T' : Transcript) : ingests (T ++ T') = ingests T ++ ingests T' := by
  unfold ingests
  rw [made_append, List.filterMap_append]

@[simp] theorem logged_append (T T' : Transcript) : logged (T ++ T') = logged T ++ logged T' := by
  unfold logged
  rw [made_append, List.filterMap_append]

/-- Holds for the ids under which an asset was ingested. -/
def hasIngested (T : Transcript) (id : String) : Bool := T.ingests.any (·.2.id == id)

/-- The last ingestion under an id, with its time. -/
def lastIngest? (T : Transcript) (id : String) : Option (Millis × Asset) :=
  lastWith (fun p => decide (p.2.id = id)) T.ingests

/-- The last extraction under an id. -/
def lastExtraction? (T : Transcript) (id : String) : Option Extraction :=
  lastWith (fun x => decide (x.asset.id = id)) T.extractions

theorem hasIngested_iff {T : Transcript} {id : String} :
    T.hasIngested id = true ↔ ∃ p ∈ T.ingests, p.2.id = id := by
  unfold hasIngested
  rw [List.any_eq_true]
  exact exists_congr fun p => and_congr_right fun _ => beq_iff_eq

theorem lastIngest?_eq_none {T : Transcript} {id : String} (h : ¬T.hasIngested id = true) :
    T.lastIngest? id = none := by
  refine lastWith_eq_none_iff.2 fun p hp hid => h (hasIngested_iff.2 ⟨p, hp, ?_⟩)
  exact of_decide_eq_true hid

/-- Holds for what yields, ingests and logs nothing. -/
structure Quiet (T : Transcript) : Prop where
  extractions : T.extractions = []
  ingests : T.ingests = []
  logged : T.logged = []

theorem quiet_nil : Quiet [] := ⟨rfl, rfl, rfl⟩

theorem Quiet.append {T T' : Transcript} (h : Quiet T) (h' : Quiet T') : Quiet (T ++ T') where
  extractions := by rw [extractions_append, h.extractions, h'.extractions, List.append_nil]
  ingests := by rw [ingests_append, h.ingests, h'.ingests, List.append_nil]
  logged := by rw [logged_append, h.logged, h'.logged, List.append_nil]

/-- Holds for what takes no asset away. -/
def Keeps (T : Transcript) : Prop := ∀ q ∈ T.made, ∀ id, q.2 ≠ .remove id

theorem keeps_nil : Keeps [] := fun _ h => absurd h List.not_mem_nil

theorem Keeps.append {T T' : Transcript} (h : Keeps T) (h' : Keeps T') : Keeps (T ++ T') := by
  unfold Keeps
  rw [made_append]
  exact List.forall_mem_append.2 ⟨h, h'⟩

end Transcript

namespace Pass

variable {platform : String}

/-! ## Files -/

/-- What files add to a progress: every extraction is ingested and remembered with its links, and
every error is logged and reported. -/
structure FileGain (platform : String) (p : Progress) (T : Transcript) (p' : Progress) : Prop where
  stored : p'.stored = p.stored ++ T.extractions.map fun x => (x.asset.id, x.links)
  ingests : T.ingests.map (·.2) = T.extractions.map (·.asset)
  errors : p'.report.errors = p.report.errors ++ T.logged.map (·.message)
  logged : ∀ e ∈ T.logged, e.platform = platform
  edges : ∀ k, replay edgeEffect T.made k = k
  keeps : T.Keeps

theorem FileGain.refl (p : Progress) : FileGain platform p [] p where
  stored := (List.append_nil _).symm
  ingests := rfl
  errors := (List.append_nil _).symm
  logged _ h := absurd h List.not_mem_nil
  edges _ := rfl
  keeps := Transcript.keeps_nil

theorem FileGain.trans {p p' p'' : Progress} {T T' : Transcript} (h : FileGain platform p T p')
    (h' : FileGain platform p' T' p'') : FileGain platform p (T ++ T') p'' where
  stored := by rw [h'.stored, h.stored, Transcript.extractions_append, List.map_append,
    List.append_assoc]
  ingests := by rw [Transcript.ingests_append, Transcript.extractions_append, List.map_append,
    List.map_append, h.ingests, h'.ingests]
  errors := by rw [h'.errors, h.errors, Transcript.logged_append, List.map_append,
    List.append_assoc]
  logged := by
    rw [Transcript.logged_append]
    exact List.forall_mem_append.2 ⟨h.logged, h'.logged⟩
  edges k := by rw [Transcript.made_append, replay_append, h.edges, h'.edges]
  keeps := h.keeps.append h'.keeps

/-- An error that is logged and reported. -/
theorem FileGain.of_error {p : Progress} {message : String} {now : Millis} {T : Transcript}
    (hmade : T.made = [(now, .logError platform message)]) (hnone : T.extractions = []) :
    FileGain platform p T { p with report := p.report.withError message } where
  stored := by
    rw [hnone]
    exact (List.append_nil _).symm
  ingests := by
    rw [hnone]
    unfold Transcript.ingests
    rw [hmade]
    rfl
  errors := by
    unfold Transcript.logged
    rw [hmade]
    rfl
  logged := by
    unfold Transcript.logged
    rw [hmade]
    exact List.forall_mem_singleton.2 rfl
  edges k := by
    rw [hmade]
    rfl
  keeps := by
    unfold Transcript.Keeps
    rw [hmade]
    exact List.forall_mem_singleton.2 fun id => nofun

/-- **Files.** A file adds its extraction or its error. -/
theorem FileGain.of_turn {p p' : Progress} {file : Candidate} {T : Transcript}
    (h : FileTurn platform p file T p') (hT : T.NoFault) : FileGain platform p T p' := by
  cases h with
  | unread =>
      -- the error is logged, for no change fails
      obtain rfl := hT.eq_ok (List.mem_cons_of_mem _ List.mem_cons_self)
      exact .of_error rfl rfl
  | empty =>
      exact ⟨(List.append_nil _).symm, rfl, (List.append_nil _).symm,
        fun _ h => absurd h List.not_mem_nil, fun _ => rfl, Transcript.keeps_nil⟩
  | unstored =>
      exact absurd (List.mem_cons_of_mem _ List.mem_cons_self) (hT _ _ _)
  | stored =>
      exact ⟨rfl, rfl, (List.append_nil _).symm, fun _ h => absurd h List.not_mem_nil,
        fun _ => rfl, List.forall_mem_singleton.2 fun id => nofun⟩

theorem FileGain.of_files {files : List Candidate} {p p' : Progress} {T : Transcript}
    (h : Yields (files.foldlM (processFile platform) p) T p') (hT : T.NoFault) :
    FileGain platform p T p' := by
  refine Yields.foldlM_induction (P := fun _ T p' => T.NoFault → FileGain platform p T p')
    (fun _ => .refl p) ?_ h hT
  intro _ file T T' b b' hb hturn hT
  exact (hb hT.left).trans (.of_turn (yields_processFile hturn) hT.right)

/-! ## Edges -/

/-- What puts edges in the place of others, and does no more. -/
structure Rewires (f : List Edge → List Edge) (T : Transcript) : Prop where
  edges : ∀ k, replay edgeEffect T.made k = f k
  quiet : T.Quiet
  keeps : T.Keeps

theorem Rewires.refl : Rewires (fun k => k) [] where
  edges _ := rfl
  quiet := Transcript.quiet_nil
  keeps := Transcript.keeps_nil

theorem Rewires.trans {f g : List Edge → List Edge} {T T' : Transcript} (h : Rewires f T)
    (h' : Rewires g T') : Rewires (fun k => g (f k)) (T ++ T') where
  edges k := by rw [Transcript.made_append, replay_append, h.edges, h'.edges]
  quiet := h.quiet.append h'.quiet
  keeps := h.keeps.append h'.keeps

/-- What is added to rewired edges by the next of a list. -/
theorem Rewires.concat {α : Type} {f : List Edge → α → List Edge} {xs : List α} {x : α}
    {T T' : Transcript} (h : Rewires (fun k => xs.foldl f k) T) (h' : Rewires (fun k => f k x) T') :
    Rewires (fun k => (xs ++ [x]).foldl f k) (T ++ T') := by
  simp only [List.foldl_append, List.foldl_cons, List.foldl_nil]
  exact h.trans h'

/-- Edges that are added one after another. -/
theorem rewires_of_links {origin : String} {targets : List String} {r r' : RunReport}
    {T : Transcript} (h : Yields (targets.foldlM (linkTo platform origin) r) T r')
    (hT : T.NoFault) : r' = r ∧ Rewires (fun k => targets.foldl (addImport origin) k) T := by
  refine Yields.foldlM_induction (P := fun seen T r' => T.NoFault → r' = r
    ∧ Rewires (fun k => seen.foldl (addImport origin) k) T) (fun _ => ⟨rfl, .refl⟩) ?_ h hT
  intro seen target T T' b b' hb hturn hT
  obtain ⟨rfl, hseen⟩ := hb hT.left
  cases yields_linkTo hturn with
  | unlinked => exact absurd List.mem_cons_self (hT.right _ _ _)
  | linked =>
      exact ⟨rfl, hseen.concat
        ⟨fun _ => rfl, ⟨rfl, rfl, rfl⟩, List.forall_mem_singleton.2 fun id => nofun⟩⟩

/-- **Edges of an asset.** Its import edges are replaced, and the report stays. -/
theorem rewires_of_turn {holds : String → Bool} {entry : String × List String}
    {r r' : RunReport} {T : Transcript} (h : OriginTurn platform holds r entry T r')
    (hT : T.NoFault) : r' = r ∧ Rewires (fun k => relink holds k entry) T := by
  cases h with
  | uncleared => exact absurd List.mem_cons_self (hT _ _ _)
  | @cleared t T r' links =>
      obtain ⟨rfl, hlinks⟩ := rewires_of_links links hT.of_cons
      have hclear : Rewires (edgeEffect t (.clear entry.1 importKind))
          [.changed t (.clear entry.1 importKind) (.ok ())] :=
        ⟨fun _ => rfl, ⟨rfl, rfl, rfl⟩, List.forall_mem_singleton.2 fun id => nofun⟩
      exact ⟨rfl, hclear.trans hlinks⟩

/-- The edges of all assets that are remembered. -/
theorem rewires_of_origins {holds : String → Bool} {entries : List (String × List String)}
    {r r' : RunReport} {T : Transcript}
    (h : Yields (entries.foldlM (linkFrom platform holds) r) T r') (hT : T.NoFault) :
    r' = r ∧ Rewires (fun k => entries.foldl (relink holds) k) T := by
  refine Yields.foldlM_induction (P := fun seen T r' => T.NoFault → r' = r
    ∧ Rewires (fun k => seen.foldl (relink holds) k) T) (fun _ => ⟨rfl, .refl⟩) ?_ h hT
  intro seen entry T T' b b' hb hturn hT
  obtain ⟨rfl, hseen⟩ := hb hT.left
  obtain ⟨rfl, hentry⟩ := rewires_of_turn (yields_linkFrom hturn) hT.right
  exact ⟨rfl, hseen.concat hentry⟩

/-! ## Passes -/

/-- What a pass that completes leaves: `before` and `after` are the contents of the store. -/
structure Leaves (platform : String) (T : Transcript) (report : RunReport)
    (before after : Contents) : Prop where
  /-- What is extracted is ingested, in the same order. -/
  ingests : T.ingests.map (·.2) = T.extractions.map (·.asset)
  /-- An id holds the last asset that was extracted under it. -/
  assets : ∀ id x, T.lastExtraction? id = some x → ∃ now,
    T.lastIngest? id = some (now, x.asset) ∧ after.assets id = (x.asset.readBack now).map some
  otherAssets : ∀ id, ¬T.hasIngested id = true → after.assets id = before.assets id
  /-- The import edges of an asset are its last links to assets of the same pass. -/
  imports : ∀ origin target, T.hasIngested origin = true →
    (⟨origin, target, importKind⟩ ∈ after.edges ↔ ∃ x, T.lastExtraction? origin = some x
      ∧ target ∈ x.links ∧ T.hasIngested target = true)
  otherEdges : after.edges.filter (fun e => !(e.kind == importKind && T.hasIngested e.origin))
    = before.edges.filter fun e => !(e.kind == importKind && T.hasIngested e.origin)
  /-- The log grows by the errors of the report, for the platform of the pass. -/
  errors : after.errors = before.errors ++ T.logged
  messages : T.logged.map (·.message) = report.errors
  logged : ∀ e ∈ T.logged, e.platform = platform

/-- The parts of a pass that completes without a fault, taken together: what is extracted is
ingested and remembered, and the edges of what is remembered are replaced. -/
structure Done (platform : String) (T : Transcript) (report : RunReport)
    (stored : List (String × List String)) : Prop where
  remembered : stored = T.extractions.map fun x => (x.asset.id, x.links)
  ingests : T.ingests.map (·.2) = T.extractions.map (·.asset)
  messages : T.logged.map (·.message) = report.errors
  logged : ∀ e ∈ T.logged, e.platform = platform
  edges : ∀ k, replay edgeEffect T.made k
    = stored.foldl (relink fun id => stored.any (·.1 == id)) k
  keeps : T.Keeps

/-- The end of a pass that completes records in the ledger: it leaves the edges alone. -/
theorem CloseTurn.rewires {started : Millis} {r : RunReport} {T : Transcript} {o : RunOutcome}
    (h : CloseTurn platform started r T o) (hcompleted : o.isCompleted = true) :
    o.report.errors = r.errors ∧ Rewires (fun k => k) T := by
  cases h with
  | recorded =>
      exact ⟨rfl, fun _ => rfl, ⟨rfl, rfl, rfl⟩, List.forall_mem_singleton.2 fun id => nofun⟩
  | unrecorded => exact nomatch hcompleted

theorem PassCourse.done {T : Transcript} {o : RunOutcome} (h : PassCourse platform T o)
    (hT : T.NoFault) (hcompleted : o.isCompleted = true) :
    ∃ stored, Done platform T o.report stored := by
  cases h with
  | unlisted => exact nomatch hcompleted
  | @listed started files T₁ p T₂ r T₃ _ turns links last =>
      have hrest := hT.of_cons.of_cons
      have hgain := FileGain.of_files turns hrest.left
      obtain ⟨rfl, hlinks⟩ := rewires_of_origins links hrest.right.left
      obtain ⟨herrors, hlast⟩ := last.rewires hcompleted
      -- what comes after the files yields, ingests and logs nothing
      have hafter := hlinks.trans hlast
      have hingests : (T₁ ++ (T₂ ++ T₃)).ingests = T₁.ingests := by
        rw [Transcript.ingests_append, hafter.quiet.ingests, List.append_nil]
      have hlogged : (T₁ ++ (T₂ ++ T₃)).logged = T₁.logged := by
        rw [Transcript.logged_append, hafter.quiet.logged, List.append_nil]
      have hextractions : (T₁ ++ (T₂ ++ T₃)).extractions = T₁.extractions := by
        rw [Transcript.extractions_append, hafter.quiet.extractions, List.append_nil]
      refine ⟨p.stored, ?_, ?_, ?_, ?_, fun k => ?_, ?_⟩
      · show p.stored = (T₁ ++ (T₂ ++ T₃)).extractions.map _
        rw [hextractions, hgain.stored]
        exact List.nil_append _
      · show (T₁ ++ (T₂ ++ T₃)).ingests.map _ = (T₁ ++ (T₂ ++ T₃)).extractions.map _
        rw [hingests, hextractions, hgain.ingests]
      · show (T₁ ++ (T₂ ++ T₃)).logged.map _ = _
        rw [hlogged, herrors, hgain.errors]
        exact (List.nil_append _).symm
      · show ∀ e ∈ (T₁ ++ (T₂ ++ T₃)).logged, _
        rw [hlogged]
        exact hgain.logged
      · show replay edgeEffect (T₁ ++ (T₂ ++ T₃)).made k = _
        rw [Transcript.made_append, replay_append, hgain.edges, hafter.edges]
        rfl
      · exact hgain.keeps.append hafter.keeps

/-- What is remembered of a pass tells which ids it ingested. -/
theorem Done.hasIngested {T : Transcript} {report : RunReport}
    {stored : List (String × List String)} (h : Done platform T report stored) (id : String) :
    (stored.any fun entry => entry.1 == id) = T.hasIngested id := by
  -- each extraction is ingested, so the ids are the same
  have hids : T.ingests.map (fun p => p.2.id) = T.extractions.map (·.asset.id) := by
    have hassets := congrArg (List.map Asset.id) h.ingests
    rwa [List.map_map, List.map_map] at hassets
  unfold Transcript.hasIngested
  rw [h.remembered, List.any_map]
  have hany : T.extractions.any (fun x => x.asset.id == id)
      = (T.extractions.map (·.asset.id)).any (· == id) := by rw [List.any_map]; rfl
  show T.extractions.any (fun x => x.asset.id == id) = _
  rw [hany, ← hids, List.any_map]
  rfl

/-- The last extraction under an id is ingested last. -/
theorem Done.lastIngest? {T : Transcript} {report : RunReport}
    {stored : List (String × List String)} (h : Done platform T report stored) (id : String) :
    (T.lastIngest? id).map (·.2) = (T.lastExtraction? id).map (·.asset) := by
  unfold Transcript.lastIngest? Transcript.lastExtraction?
  rw [← lastWith_map (fun a : Asset => decide (a.id = id)), h.ingests, lastWith_map]

/-- What is remembered last of an asset are the links of its last extraction. -/
theorem Done.lastLinks {T : Transcript} {report : RunReport}
    {stored : List (String × List String)} (h : Done platform T report stored)
    (origin target : String) :
    lastWith (fun entry => Edge.isImportOf entry.1 ⟨origin, target, importKind⟩) stored
      = (T.lastExtraction? origin).map fun x => (x.asset.id, x.links) := by
  unfold Transcript.lastExtraction?
  rw [h.remembered, lastWith_map]
  congr 2
  funext x
  rw [Bool.eq_iff_iff, isImportOf_iff, decide_eq_true_iff]
  exact ⟨fun h => h.1.symm, fun h => ⟨h.symm, rfl⟩⟩

/-- Under an id the last extraction is read back. -/
theorem Done.lastReadBack {T : Transcript} {report : RunReport} {stored : List (String × List String)}
    (h : Done platform T report stored) {id : String} {x : Extraction}
    (hx : T.lastExtraction? id = some x) (k : AssetsSeen) :
    ∃ now, T.lastIngest? id = some (now, x.asset)
      ∧ readLast T.ingests k id = (x.asset.readBack now).map some := by
  have hlast := h.lastIngest? id
  rw [hx] at hlast
  obtain ⟨⟨now, a⟩, hp, ha⟩ := Option.map_eq_some_iff.1 hlast
  obtain rfl : a = x.asset := ha
  refine ⟨now, hp, ?_⟩
  unfold Transcript.lastIngest? at hp
  unfold readLast
  rw [hp]

/-- An id under which nothing was ingested is read as before. -/
theorem readLast_of_not_ingested {T : Transcript} {id : String} (h : ¬T.hasIngested id = true)
    (k : AssetsSeen) : readLast T.ingests k id = k id := by
  have hnone := Transcript.lastIngest?_eq_none h
  unfold Transcript.lastIngest? at hnone
  unfold readLast
  rw [hnone]

/-- An id that was ingested has a last extraction. -/
theorem Done.exists_lastExtraction {T : Transcript} {report : RunReport}
    {stored : List (String × List String)} (h : Done platform T report stored) {id : String}
    (hid : T.hasIngested id = true) : ∃ x, T.lastExtraction? id = some x := by
  cases hx : T.lastExtraction? id with
  | some x => exact ⟨x, rfl⟩
  | none =>
      have hlast := h.lastIngest? id
      rw [hx] at hlast
      obtain ⟨p, hp, heq⟩ := Transcript.hasIngested_iff.1 hid
      have hnone := lastWith_eq_none_iff.1 (Option.map_eq_none_iff.1 hlast) p hp
      exact absurd (decide_eq_true heq) hnone

/-- The import edges of an asset are its last links to what was ingested. -/
theorem Done.imports {T : Transcript} {report : RunReport} {stored : List (String × List String)}
    (h : Done platform T report stored) {origin : String} (target : String)
    (horigin : T.hasIngested origin = true) (k : List Edge) :
    ⟨origin, target, importKind⟩ ∈ replay edgeEffect T.made k
      ↔ ∃ x, T.lastExtraction? origin = some x ∧ target ∈ x.links
        ∧ T.hasIngested target = true := by
  obtain ⟨x, hx⟩ := h.exists_lastExtraction horigin
  rw [h.edges, mem_foldl_relink, h.lastLinks, hx]
  show target ∈ x.links ∧ (stored.any fun entry => entry.1 == target) = true ↔ _
  rw [h.hasIngested]
  exact ⟨fun ht => ⟨x, rfl, ht⟩, fun ⟨_, hx', ht⟩ => Option.some.inj hx' ▸ ht⟩

/-- All edges but the import edges of what was ingested stay, in their order. -/
theorem Done.otherEdges {T : Transcript} {report : RunReport}
    {stored : List (String × List String)} (h : Done platform T report stored) (k : List Edge) :
    (replay edgeEffect T.made k).filter (fun e => !(e.kind == importKind && T.hasIngested e.origin))
      = k.filter fun e => !(e.kind == importKind && T.hasIngested e.origin) := by
  rw [h.edges]
  refine filter_foldl_relink (fun entry hentry e he => ?_) k
  obtain ⟨horigin, hkind⟩ := isImportOf_iff.1 he
  have hentry' : T.hasIngested e.origin = true := by
    rw [← h.hasIngested, List.any_eq_true]
    exact ⟨entry, hentry, beq_iff_eq.2 horigin.symm⟩
  rw [hentry', hkind]
  rfl

theorem Done.leaves {T : Transcript} {report : RunReport} {stored : List (String × List String)}
    (h : Done platform T report stored) (k : Contents) :
    Leaves platform T report k (replay Contents.effect T.made k) := by
  have hassets : replay assetEffect T.made k.assets = readLast T.ingests k.assets :=
    replay_assetEffect k.assets h.keeps
  rw [replay_contents, hassets, replay_errorEffect]
  exact {
    ingests := h.ingests
    assets := fun id x hx => h.lastReadBack hx k.assets
    otherAssets := fun id hid => readLast_of_not_ingested hid k.assets
    imports := fun origin target horigin => h.imports target horigin k.edges
    otherEdges := h.otherEdges k.edges
    errors := rfl
    messages := h.messages
    logged := h.logged }

/-- **Passes.** A pass that completes over a store that fails no change leaves under each id the
last asset that was extracted under it, as its import edges the links of that extraction to assets
of the same pass, and in the log its errors; all else it leaves as it was. -/
theorem leaves_of_run {σ : Type} [Backend σ] (v : View σ Contents Contents.effect)
    (source : Extractor) (tree : FileTree) (time : Nat → Millis) (s : σ)
    (hT : ((routine source.platform).transcript source tree time s).NoFault)
    (hcompleted : ((routine source.platform).run source tree time s).1.isCompleted = true) :
    Leaves source.platform ((routine source.platform).transcript source tree time s)
      ((routine source.platform).run source tree time s).1.report (v.seen s)
      (v.seen ((routine source.platform).run source tree time s).2) := by
  have hcourse := yields_routine
    (Routine.yields_transcript source tree (routine source.platform) time s)
  obtain ⟨stored, hdone⟩ := hcourse.done hT hcompleted
  rw [v.run_eq]
  exact hdone.leaves (v.seen s)

/-- An extractor of four files: two yield the same id, one cannot be parsed, and links lead forward,
back, to the asset itself and to one that is not extracted. -/
def sharedIdExtractor : Extractor where
  platform := "react"
  source := "react"
  discover _ := .ok [⟨"/a", "a"⟩, ⟨"/b", "b"⟩, ⟨"/c", "c"⟩, ⟨"/d", "d"⟩]
  extract _ _ file :=
    let asset (id title : String) : Asset := ⟨id, title, "", .asset, "react", .untyped []⟩
    match file.relative with
    | "a" => .ok (some ⟨asset "x" "first", ["y", "x"]⟩)
    | "b" => .error (.unparsed "/b" syntaxReason)
    | "c" => .ok (some ⟨asset "y" "only", ["x", "gone"]⟩)
    | _ => .ok (some ⟨asset "x" "last", ["y", "gone"]⟩)

/-- A store with an edge that is replaced, one of another kind and one from another asset. -/
def linkedStore : MemoryStore where
  edges := [⟨"x", "gone", importKind⟩, ⟨"x", "y", "USES"⟩, ⟨"gone", "x", importKind⟩]

theorem leaves_of_run_sharedId :
    let r := routine sharedIdExtractor.platform
    (r.transcript sharedIdExtractor {} (fun n => n) linkedStore).NoFault
      ∧ (r.run sharedIdExtractor {} (fun n => n) linkedStore).1.isCompleted = true
      ∧ Leaves "react" (r.transcript sharedIdExtractor {} (fun n => n) linkedStore)
        (r.run sharedIdExtractor {} (fun n => n) linkedStore).1.report
        (MemoryStore.contentsView.seen linkedStore)
        (MemoryStore.contentsView.seen
          (r.run sharedIdExtractor {} (fun n => n) linkedStore).2) :=
  have hT := MemoryStore.noFault sharedIdExtractor {} (routine sharedIdExtractor.platform)
    (fun n => n) linkedStore
  ⟨hT, rfl, leaves_of_run MemoryStore.contentsView sharedIdExtractor {} (fun n => n) linkedStore
    hT rfl⟩

end Pass

end ContentGraph
