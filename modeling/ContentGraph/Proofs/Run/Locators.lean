import ContentGraph.Proofs.Discovery.Order
import ContentGraph.Proofs.Run.Accounting
import ContentGraph.Proofs.Run.Contents
import ContentGraph.Proofs.Run.Prefixes
import Mathlib.Data.List.Dedup

/-!
# Ids of files

The id of an asset is made from the path of its file by writing an underscore for each separator
and dot. So two paths have one id when they differ only where each has one of these characters or
an underscore (`locator_eq_iff`), and of two such files the later one replaces the asset of the
earlier. Main statement: a pass over an empty store that has no errors leaves an asset for each
different id; these are as many as it counts just when no two files that it extracted from share one
(`storedIds_of_run`). Files that share one are found in an ordinary corpus (`sharedDocumentId`).
-/

namespace ContentGraph

open Discovery (Candidate)
open Routine (Yields)
open Store (Backend Change)

/-! ## Paths and ids -/

/-- Holds for two characters that are written alike in ids. -/
def Blurs (c d : Char) : Prop := c = d ∨ c ∈ ['/', '\\', '.', '_'] ∧ d ∈ ['/', '\\', '.', '_']

theorem blurs_iff {c d : Char} :
    Blurs c d ↔ (if isLocatorMark c then '_' else c) = if isLocatorMark d then '_' else d := by
  have hmark : ∀ x : Char, isLocatorMark x = true ↔ x = '/' ∨ x = '\\' ∨ x = '.' := by
    intro x
    unfold isLocatorMark
    rw [Bool.or_eq_true, Bool.or_eq_true, beq_iff_eq, beq_iff_eq, beq_iff_eq, or_assoc]
  unfold Blurs
  simp only [hmark, List.mem_cons, List.not_mem_nil, or_false]
  grind

/-- **Ids.** Two paths have one id exactly when they are as long as each other and differ only in
characters that are written alike. -/
theorem locator_eq_iff {a b : String} :
    locator a = locator b ↔ List.Forall₂ Blurs a.toList b.toList := by
  unfold locator
  rw [String.ofList_inj, ← List.forall₂_eq_eq_eq, List.forall₂_map_left_iff,
    List.forall₂_map_right_iff]
  simp only [← blurs_iff]

/-! ## Discovered files -/

/-- The extractors of files, each with the tag of its ids. -/
inductive Tags : Extractor → String → Prop
  | components (corpus : Corpus) : Tags (.components corpus) "react_"
  | documents (corpus : Corpus) : Tags (.documents corpus) "docs_"

/-- The id of what a file yields is made from its relative path. -/
theorem Tags.id_eq {source : Extractor} {tag : String} (h : Tags source tag) {tree : FileTree}
    {now : Millis} {file : Candidate} {x : Extraction}
    (hx : source.extract tree now file = .ok (some x)) :
    x.asset.id = tag ++ locator file.relative := by
  cases h with
  | components corpus =>
      obtain ⟨⟨text, size, modified⟩, -, hx⟩ := Except.exists_of_bind hx
      simp only at hx
      split at hx
      · exact nomatch hx
      · split at hx
        · obtain rfl := Option.some.inj (Except.ok.inj hx)
          rfl
        · exact nomatch hx
  | documents corpus =>
      obtain ⟨⟨text, size, modified⟩, -, hx⟩ := Except.exists_of_bind hx
      obtain ⟨a, ha, rfl⟩ := Option.map_eq_some_iff.1 (Except.ok.inj hx)
      unfold Document.toAsset? at ha
      simp only at ha
      split at ha
      · exact nomatch ha
      · obtain rfl := Option.some.inj ha
        rfl

/-- The files of a corpus have different relative paths. -/
theorem Tags.ordered {source : Extractor} {tag : String} (h : Tags source tag) {tree : FileTree}
    {files : List Candidate} (hfiles : source.discover tree = .ok files) :
    Discovery.Ordered files := by
  cases h with
  | components corpus => exact Discovery.ordered_of_discover hfiles
  | documents corpus => exact Discovery.ordered_of_discover hfiles

/-! ## Files that yield -/

/-- A file that yielded something, with what it yielded. -/
def Exchange.yielded? : Exchange → Option (Candidate × Extraction)
  | .extracted file (.ok (some x)) => some (file, x)
  | _ => none

namespace Transcript

/-- The files that yielded something, with what they yielded. -/
def yielded (T : Transcript) : List (Candidate × Extraction) := T.filterMap Exchange.yielded?

/-- The files that yielded something. -/
def sources (T : Transcript) : List Candidate := T.yielded.map (·.1)

theorem map_yielded (T : Transcript) : T.yielded.map (·.2) = T.extractions := by
  unfold yielded extractions
  rw [List.map_filterMap]
  congr 1
  funext x
  match x with
  | .extracted file (.ok (some x)) => rfl
  | .extracted file (.ok none) => rfl
  | .extracted file (.error e) => rfl
  | .read _ => rfl
  | .listed _ => rfl
  | .changed _ _ _ => rfl

theorem yielded_append (T T' : Transcript) : yielded (T ++ T') = yielded T ++ yielded T' :=
  List.filterMap_append

theorem sources_append (T T' : Transcript) : sources (T ++ T') = sources T ++ sources T' := by
  unfold sources
  rw [yielded_append, List.map_append]

/-- Where nothing was extracted no file yielded. -/
theorem sources_eq_nil {T : Transcript} (h : T.extractions = []) : T.sources = [] := by
  rw [← map_yielded, List.map_eq_nil_iff] at h
  unfold sources
  rw [h, List.map_nil]

end Transcript

namespace Pass

variable {platform : String}

/-! ## Passes without errors

Every change that fails leaves an error in the report, so a pass that has none failed no change. -/

theorem noFault_append {T T' : Transcript} (h : T.NoFault) (h' : T'.NoFault) :
    Transcript.NoFault (T ++ T') :=
  fun now c e hmem => (List.mem_append.1 hmem).elim (h now c e) (h' now c e)

/-- A loop whose turns note each fault has met none when it ends without errors. -/
theorem noFault_of_loop {β γ : Type} {step : β → γ → Routine β} {E : β → List String}
    (turn : ∀ {b x T b'}, Yields (step b x) T b' → E b' = [] → E b = [] ∧ T.NoFault)
    {xs : List γ} {b b' : β} {T : Transcript} (h : Yields (xs.foldlM step b) T b')
    (hclean : E b' = []) : E b = [] ∧ T.NoFault := by
  refine Yields.foldlM_induction (P := fun _ T b' => E b' = [] → E b = [] ∧ T.NoFault)
    (fun hb => ⟨hb, fun _ _ _ h => absurd h List.not_mem_nil⟩) ?_ h hclean
  intro _ x T T' c c' hc hturn hclean'
  obtain ⟨hclean, hT'⟩ := turn hturn hclean'
  obtain ⟨hb, hT⟩ := hc hclean
  exact ⟨hb, noFault_append hT hT'⟩

/-- An error that has been noted is in the report. -/
theorem withError_ne_nil (r : RunReport) (message : String) : (r.withError message).errors ≠ [] :=
  List.append_ne_nil_of_right_ne_nil _ (List.cons_ne_nil _ _)

theorem FileTurn.noFault {p p' : Progress} {file : Candidate} {T : Transcript}
    (h : FileTurn platform p file T p') (hclean : p'.report.errors = []) :
    p.report.errors = [] ∧ T.NoFault := by
  cases h with
  | unread => exact absurd hclean (withError_ne_nil _ _)
  | unstored => exact absurd hclean (withError_ne_nil _ _)
  | empty => exact ⟨hclean, fun _ _ _ h => by simp at h⟩
  | stored => exact ⟨hclean, fun _ _ _ h => by simp at h⟩

theorem LinkTurn.noFault {origin target : String} {r r' : RunReport} {T : Transcript}
    (h : LinkTurn platform origin r target T r') (hclean : r'.errors = []) :
    r.errors = [] ∧ T.NoFault := by
  cases h with
  | linked => exact ⟨hclean, fun _ _ _ h => by simp at h⟩
  | unlinked => exact absurd hclean (withError_ne_nil _ _)

theorem OriginTurn.noFault {holds : String → Bool} {entry : String × List String}
    {r r' : RunReport} {T : Transcript} (h : OriginTurn platform holds r entry T r')
    (hclean : r'.errors = []) : r.errors = [] ∧ T.NoFault := by
  cases h with
  | uncleared => exact absurd hclean (withError_ne_nil _ _)
  | cleared links =>
      obtain ⟨hr, hT⟩ := noFault_of_loop (E := RunReport.errors)
        (fun hturn => (yields_linkTo hturn).noFault) links hclean
      exact ⟨hr, hT.cons nofun⟩

/-- **Clean passes.** A pass that completes without errors has met no fault. -/
theorem PassCourse.noFault {T : Transcript} {o : RunOutcome} (h : PassCourse platform T o)
    (hcompleted : o.isCompleted = true) (hclean : o.report.errors = []) : T.NoFault := by
  cases h with
  | unlisted => exact nomatch hcompleted
  | listed turns links last =>
      cases last with
      | recorded =>
          obtain ⟨hr, hT₂⟩ := noFault_of_loop (E := RunReport.errors)
            (fun hturn => (yields_linkFrom hturn).noFault) links hclean
          obtain ⟨-, hT₁⟩ := noFault_of_loop (E := fun p => p.report.errors)
            (fun hturn => (yields_processFile hturn).noFault) turns hr
          have hT₃ : ∀ now t c, Transcript.NoFault [.read now, .changed t c (.ok ())] := by
            intro now t c _ _ _ h
            simp at h
          refine .cons (.cons (noFault_append hT₁ (noFault_append hT₂ (hT₃ _ _ _))) ?_) ?_
          · exact nofun
          · exact nofun
      | unrecorded => exact nomatch hcompleted

theorem noFault_of_run {σ : Type} [Backend σ] {source : Extractor} {tree : FileTree}
    {time : Nat → Millis} {s : σ} {o : RunOutcome}
    (ho : ((routine source.platform).run source tree time s).1 = o)
    (hcompleted : o.isCompleted = true) (hclean : o.report.errors = []) :
    ((routine source.platform).transcript source tree time s).NoFault :=
  (yields_routine (Routine.yields_transcript source tree (routine source.platform) time s)).noFault
    (ho ▸ hcompleted) (ho ▸ hclean)

/-! ## The files of a pass -/

/-- A file is extracted from once. -/
theorem sources_sublist {files : List Candidate} {p p' : Progress} {T : Transcript}
    (h : Yields (files.foldlM (processFile platform) p) T p') : T.sources.Sublist files := by
  refine Yields.foldlM_induction (P := fun seen T _ => T.sources.Sublist seen) (.refl []) ?_ h
  intro seen file T T' _ _ hT hturn
  rw [Transcript.sources_append]
  refine hT.append ?_
  cases yields_processFile hturn with
  | unread => exact List.nil_sublist _
  | empty => exact List.nil_sublist _
  | unstored => exact .refl _
  | stored => exact .refl _

/-- What yields in a pass that completes are files that were listed, in their order. -/
theorem PassCourse.sources {T : Transcript} {o : RunOutcome} (h : PassCourse platform T o)
    (hT : T.NoFault) (hcompleted : o.isCompleted = true) :
    ∃ files, .listed (.ok files) ∈ T ∧ T.sources.Sublist files := by
  cases h with
  | unlisted => exact nomatch hcompleted
  | @listed started files T₁ p T₂ r T₃ _ turns links last =>
      refine ⟨files, List.mem_cons_of_mem _ List.mem_cons_self, ?_⟩
      obtain ⟨-, hlinks⟩ := rewires_of_origins links hT.of_cons.of_cons.right.left
      obtain ⟨-, hlast⟩ := last.rewires hcompleted
      -- nothing is extracted after the files have had their turns
      have hafter : Transcript.sources (T₂ ++ T₃) = [] :=
        Transcript.sources_eq_nil (hlinks.trans hlast).quiet.extractions
      show Transcript.sources ([_, _] ++ (T₁ ++ (T₂ ++ T₃))) |>.Sublist _
      rw [Transcript.sources_append, Transcript.sources_append, hafter, List.append_nil]
      exact sources_sublist turns

end Pass

/-! ## The ids of stored assets -/

/-- The effect of a change on the ids under which there is an asset. -/
def idEffect (_ : Millis) : Change → List String → List String
  | .ingest a, ids => ids.filter (fun id => decide (id ≠ a.id)) ++ [a.id]
  | .remove removed, ids => ids.filter fun id => decide (id ≠ removed)
  | _, ids => ids

/-- Where nothing is removed there is an asset under what was ingested, once under each id. -/
theorem replay_idEffect {L : List (Millis × Change)} (hkeeps : ∀ p ∈ L, ∀ id, p.2 ≠ .remove id)
    {ids : List String} (hnodup : ids.Nodup) :
    (replay idEffect L ids).Nodup ∧ ∀ id, id ∈ replay idEffect L ids
      ↔ id ∈ ids ∨ id ∈ (L.filterMap ingested?).map (·.2.id) := by
  induction L generalizing ids with
  | nil => exact ⟨hnodup, fun id => by simp [replay]⟩
  | cons p L ih =>
      obtain ⟨now, c⟩ := p
      obtain ⟨hc, hL⟩ := List.forall_mem_cons.1 hkeeps
      show (replay idEffect L (idEffect now c ids)).Nodup ∧ ∀ id, id ∈ replay idEffect L _ ↔ _
      cases c with
      | ingest a =>
          have hput : (idEffect now (.ingest a) ids).Nodup := by
            refine List.nodup_append.2 ⟨hnodup.filter _, List.nodup_singleton _, ?_⟩
            intro id hid id' hid' heq
            rw [List.mem_singleton.1 hid'] at heq
            exact of_decide_eq_true (List.mem_filter.1 hid).2 heq
          obtain ⟨hn, hmem⟩ := ih hL hput
          refine ⟨hn, fun id => (hmem id).trans ?_⟩
          simp only [idEffect, List.mem_append, List.mem_filter, decide_eq_true_eq,
            List.filterMap_cons, ingested?, List.map_cons, List.mem_cons]
          by_cases hid : id = a.id
          · simp [hid]
          · simp [hid]
      | remove id => exact absurd rfl (hc id)
      | record _ _ => exact ih hL hnodup
      | relate _ => exact ih hL hnodup
      | clear _ _ => exact ih hL hnodup
      | logError _ _ => exact ih hL hnodup

/-- The ids under which a store in memory has an asset. -/
def MemoryStore.idView : View MemoryStore (List String) idEffect where
  seen m := m.assets.map (·.asset.id)
  made {now c s _} h := by
    obtain rfl := (Prod.mk.inj h).2
    cases c with
    | ingest a =>
        show (s.assets.filter _ ++ [_]).map _ = (s.assets.map _).filter _ ++ [_]
        rw [List.map_append, List.filter_map]
        rfl
    | remove id =>
        show (s.assets.filter _).map _ = (s.assets.map _).filter _
        rw [List.filter_map]
        rfl
    | relate e =>
        show (s.relate e).assets.map _ = _
        rw [relate_eq]
        rfl
    | _ => rfl
  failed h := nomatch (Prod.mk.inj h).1

/-- The ids under which a store in a database has an asset. -/
def RelationalStore.idView : View RelationalStore (List String) idEffect :=
  viewOf (fun d => (d.assets.getD []).map (·.id)) (fun _ => rfl) fun {now c d d'} h => by
    cases Database.makes_of_change h with
    | ingest hrows =>
        rw [hrows]
        show (List.filter _ _ ++ [_]).map _ = (List.map _ _).filter _ ++ [_]
        rw [List.map_append, List.filter_map]
        rfl
    | remove hrows hedges =>
        rw [hrows]
        show (List.filter _ _).map _ = (List.map _ _).filter _
        rw [List.filter_map]
        rfl
    | _ => rfl

/-- Of different ids there are as many as of others with the same members just when those are
different as well. -/
theorem length_eq_iff_nodup {xs ys : List String} (hxs : xs.Nodup) (h : ∀ x, x ∈ xs ↔ x ∈ ys) :
    xs.length = ys.length ↔ ys.Nodup := by
  have hperm : xs.Perm ys.dedup :=
    (List.perm_ext_iff_of_nodup hxs (List.nodup_dedup ys)).2 fun x => by rw [h, List.mem_dedup]
  rw [hperm.length_eq]
  constructor
  · intro hlength
    rw [← (List.dedup_sublist ys).eq_of_length hlength]
    exact List.nodup_dedup ys
  · intro hys
    rw [hys.dedup]

/-- The ids of what files yielded are made from their paths. -/
theorem Tags.ids_eq {source : Extractor} {tag : String} (hsource : Tags source tag)
    {tree : FileTree} {T : Transcript} (hT : ∀ file outcome, .extracted file outcome ∈ T →
      ∃ now, outcome = source.extract tree now file) :
    T.extractions.map (·.asset.id) = T.sources.map fun file => tag ++ locator file.relative := by
  unfold Transcript.sources
  rw [← T.map_yielded, List.map_map, List.map_map]
  refine List.map_congr_left fun p hp => ?_
  obtain ⟨x, hx, hyield⟩ := List.mem_filterMap.1 hp
  unfold Exchange.yielded? at hyield
  split at hyield
  · obtain rfl := Option.some.inj hyield
    obtain ⟨now, houtcome⟩ := hT _ _ hx
    exact hsource.id_eq houtcome.symm
  · exact nomatch hyield

theorem Transcript.length_ingests (T : Transcript) :
    T.ingests.length = T.made.countP fun q => q.2.isIngest := by
  unfold Transcript.ingests
  rw [List.length_filterMap_eq_countP]
  refine List.countP_congr fun q _ => ?_
  obtain ⟨now, c⟩ := q
  cases c <;> simp [ingested?, Change.isIngest]

namespace Pass

/-- How the assets that a pass leaves, given by their ids, answer to the files that yielded. -/
structure OneEach (tag : String) (sources : List Candidate) (report : RunReport)
    (ids : List String) : Prop where
  /-- The files are different ones, and each of them is counted. -/
  ordered : sources.Pairwise fun a b => a.relative < b.relative
  counted : report.extractedComponents = sources.length
  /-- There is one asset under each of their ids. -/
  nodup : ids.Nodup
  mem_iff : ∀ id, id ∈ ids ↔ ∃ file ∈ sources, tag ++ locator file.relative = id
  /-- They are as many as are counted just when no two files share an id. -/
  length_iff : ids.length = report.extractedComponents
    ↔ sources.Pairwise fun a b => ¬List.Forall₂ Blurs a.relative.toList b.relative.toList

/-- **Assets of files.** A pass over an empty store that completes without errors leaves one asset
for each different id of the files that it extracted from. -/
theorem storedIds_of_run {σ : Type} [Backend σ] (v : View σ (List String) idEffect)
    {source : Extractor} {tag : String} (hsource : Tags source tag) (tree : FileTree)
    (time : Nat → Millis) (s : σ) (hempty : v.seen s = [])
    (hcompleted : ((routine source.platform).run source tree time s).1.isCompleted = true)
    (hclean : ((routine source.platform).run source tree time s).1.report.errors = []) :
    OneEach tag ((routine source.platform).transcript source tree time s).sources
      ((routine source.platform).run source tree time s).1.report
      (v.seen ((routine source.platform).run source tree time s).2) := by
  have hcourse := yields_routine
    (Routine.yields_transcript source tree (routine source.platform) time s)
  have hover := Routine.over_transcript source tree (routine source.platform) time s
  rw [v.run_eq, hempty]
  generalize (routine source.platform).transcript source tree time s = W at *
  have hT := hcourse.noFault hcompleted hclean
  obtain ⟨_, hdone⟩ := hcourse.done hT hcompleted
  have hlisted : ∀ files, .listed files ∈ W → files = source.discover tree :=
    fun _ hmem => hover.eq_of_listed hmem
  have haccounts := hcourse.accounts (k := fun _ => .ok none) hlisted some fun _ _ _ => ⟨_, rfl⟩
  -- one asset is ingested for each file that yields, under the id of its path
  have hingests : W.ingests.map (·.2.id) = W.sources.map fun file => tag ++ locator file.relative := by
    have hassets := congrArg (List.map Asset.id) hdone.ingests
    rw [List.map_map, List.map_map] at hassets
    rw [← hsource.ids_eq fun _ _ hmem => hover.eq_of_extracted hmem]
    exact hassets
  have hcounted : ((routine source.platform).run source tree time s).1.report.extractedComponents
      = W.sources.length := by
    have hlength := congrArg List.length hingests
    rw [List.length_map, List.length_map, W.length_ingests] at hlength
    rw [haccounts.ingests, hlength]
  have hordered : Discovery.Ordered W.sources := by
    obtain ⟨files, hmem, hsublist⟩ := hcourse.sources hT hcompleted
    exact (hsource.ordered (hlisted _ hmem).symm).sublist hsublist
  obtain ⟨hnodup, hmem⟩ := replay_idEffect hdone.keeps List.nodup_nil
  have hmem' : ∀ id, id ∈ replay idEffect W.made []
      ↔ id ∈ W.sources.map fun file => tag ++ locator file.relative := by
    intro id
    rw [hmem, ← hingests]
    exact or_iff_right List.not_mem_nil
  refine ⟨hordered, hcounted, hnodup, fun id => (hmem' id).trans List.mem_map, ?_⟩
  have hlength : W.sources.length
      = (W.sources.map fun file => tag ++ locator file.relative).length := (List.length_map _).symm
  rw [hcounted, hlength, length_eq_iff_nodup hnodup hmem']
  unfold List.Nodup
  rw [List.pairwise_map]
  simp only [ne_eq, String.append_right_inj, locator_eq_iff]

/-- Two documents of which one lies in a directory whose name begins that of the other. -/
def sharedIdTree : FileTree where
  root := .directory [
    ("a", .directory [("b.md", .file "first".toUTF8.data.toList 0)]),
    ("a_b.md", .file "second".toUTF8.data.toList 0)]

theorem storedIds_of_run_sharedIdTree :
    let source := Extractor.documents (.documents "/")
    let r := (routine source.platform).run source sharedIdTree (fun n => n) ({} : MemoryStore)
    r.1.isCompleted = true ∧ r.1.report.errors = []
      ∧ OneEach "docs_" ((routine source.platform).transcript source sharedIdTree (fun n => n)
          ({} : MemoryStore)).sources r.1.report (MemoryStore.idView.seen r.2) := by
  intro source r
  have hcompleted : r.1.isCompleted = true := by decide +kernel
  have hclean : r.1.report.errors = [] := by decide +kernel
  exact ⟨hcompleted, hclean, storedIds_of_run MemoryStore.idView (.documents _) sharedIdTree
    (fun n => n) {} rfl hcompleted hclean⟩

/-- **Shared ids.** A pass over two documents whose paths differ only in a separator and an
underscore has no error and counts two, but it leaves one asset. -/
theorem sharedDocumentId :
    let source := Extractor.documents (.documents "/")
    let r := (routine source.platform).run source sharedIdTree (fun n => n) ({} : MemoryStore)
    source.discover sharedIdTree = .ok [⟨"/a/b.md", "a/b.md"⟩, ⟨"/a_b.md", "a_b.md"⟩]
      ∧ documentId "a/b.md" = documentId "a_b.md"
      ∧ r.1.isCompleted = true ∧ r.1.report.errors = []
      ∧ r.1.report.extractedComponents = 2 ∧ r.2.assets.length = 1 := by
  decide +kernel

end Pass

end ContentGraph
