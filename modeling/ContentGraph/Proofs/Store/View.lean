import ContentGraph.Proofs.Run.Transcript
import ContentGraph.Store.Memory

/-!
# Views of stores

A *view* is what is seen of a store: its assets, its edges, its log or its ledger. A change that is
made has an effect on what is seen, and one that fails has none (`View`). Main statement: a run
leaves in every view what the changes that it made, one after another, have for effect
(`View.run_eq`). A store that fails now and then has the views of the store behind it
(`View.flaky`).
-/

namespace ContentGraph

open Store (Change Fault Backend)

/-- Something that is seen of a store, on which the changes that are made have an effect. A change
that fails has none. -/
structure View (σ κ : Type) [Backend σ] (effect : Millis → Change → κ → κ) where
  seen : σ → κ
  made : ∀ {now c s s'}, Backend.change now c s = (.ok (), s') → seen s' = effect now c (seen s)
  failed : ∀ {now c s e s'}, Backend.change now c s = (.error e, s') → seen s' = seen s

/-- What changes, one after another, have for effect. -/
def replay {κ : Type} (effect : Millis → Change → κ → κ) (changes : List (Millis × Change))
    (k : κ) : κ :=
  changes.foldl (fun k p => effect p.1 p.2 k) k

/-- **Runs.** A run has the effect of the changes that it made. -/
theorem View.run_eq {σ κ α : Type} [Backend σ] {effect : Millis → Change → κ → κ}
    (v : View σ κ effect) (source : Extractor) (tree : FileTree) (r : Routine α)
    (time : Nat → Millis) (s : σ) :
    v.seen (r.run source tree time s).2
      = replay effect (r.transcript source tree time s).made (v.seen s) := by
  induction r generalizing time s with
  | done x => rfl
  | clock next ih => exact ih _ _ _
  | discover next ih => exact ih _ _ _
  | extract file next ih =>
      rw [Routine.run, ih]
      rfl
  | change c next ih =>
      rw [Routine.run, Routine.transcript]
      rcases hchange : Backend.change (time 0) c s with ⟨outcome, s'⟩
      cases outcome with
      | ok _ =>
          show v.seen ((next (.ok ())).run source tree _ s').2 = _
          rw [ih, v.made hchange]
          rfl
      | error e =>
          show v.seen ((next (.error e)).run source tree _ s').2 = _
          rw [ih, v.failed hchange]
          rfl

/-! ## Effects -/

/-- What is read of an asset that was stored at a time. -/
def Asset.readBack (now : Millis) (a : Asset) : Except Fault Asset :=
  (StoredAsset.ofAsset now 0 a).decode

/-- What is read under each id. -/
abbrev AssetsSeen := String → Except Fault (Option Asset)

/-- The effect of a change on what is read under each id. -/
def assetEffect (now : Millis) : Change → AssetsSeen → AssetsSeen
  | .ingest a, k => fun id => if id = a.id then (a.readBack now).map some else k id
  | .remove removed, k => fun id => if id = removed then .ok none else k id
  | _, k => k

/-- The effect of a change on the edges. -/
def edgeEffect (_ : Millis) : Change → List Edge → List Edge
  | .remove id, edges => edges.filter fun e => !e.touches id
  | .relate e, edges => if e ∈ edges then edges else edges ++ [e]
  | .clear origin kind, edges => edges.filter fun e => !(e.origin == origin && e.kind == kind)
  | _, edges => edges

/-- The effect of a change on the log. -/
def errorEffect (now : Millis) : Change → List LoggedError → List LoggedError
  | .logError platform message, errors => errors ++ [⟨platform, message, now⟩]
  | _, errors => errors

/-- What is seen of a store beside its ledger. -/
structure Contents where
  assets : AssetsSeen
  edges : List Edge
  /-- The log, the newest last. -/
  errors : List LoggedError

/-- The effect of a change on the contents. -/
def Contents.effect (now : Millis) (c : Change) (k : Contents) : Contents where
  assets := assetEffect now c k.assets
  edges := edgeEffect now c k.edges
  errors := errorEffect now c k.errors

/-- Views of assets, edges and the log together show the contents. -/
def View.contents {σ : Type} [Backend σ] (assets : View σ AssetsSeen assetEffect)
    (edges : View σ (List Edge) edgeEffect) (errors : View σ (List LoggedError) errorEffect) :
    View σ Contents Contents.effect where
  seen s := ⟨assets.seen s, edges.seen s, errors.seen s⟩
  made h := by
    rw [assets.made h, edges.made h, errors.made h]
    rfl
  failed h := by rw [assets.failed h, edges.failed h, errors.failed h]

/-! ## Parts -/

/-- A part of a store, which a change of another part leaves as it is, made or failed. -/
structure Part (σ κ : Type) [Backend σ] (touches : Change → Bool) where
  seen : σ → κ
  kept : ∀ {now c s o s'}, Backend.change now c s = (o, s') → touches c = false → seen s' = seen s

/-- A view shows a part. -/
def View.part {σ κ : Type} [Backend σ] {effect : Millis → Change → κ → κ} (v : View σ κ effect)
    {touches : Change → Bool} (h : ∀ now c k, touches c = false → effect now c k = k) :
    Part σ κ touches where
  seen := v.seen
  kept {now c s o s'} hchange hc := by
    cases o with
    | ok _ => exact (v.made hchange).trans (h now c _ hc)
    | error e => exact v.failed hchange

/-- Holds for the changes of edges. -/
def Store.Change.touchesEdges : Change → Bool
  | .remove _ => true
  | .relate _ => true
  | .clear _ _ => true
  | _ => false

/-- Holds for the changes of the ledger. -/
def Store.Change.touchesLedger : Change → Bool
  | .record _ _ => true
  | _ => false

theorem edgeEffect_of_untouched (now : Millis) (c : Change) (edges : List Edge)
    (h : c.touchesEdges = false) : edgeEffect now c edges = edges := by
  cases c with
  | remove => exact nomatch h
  | relate => exact nomatch h
  | clear => exact nomatch h
  | _ => rfl

/-! ## Stores that fail now and then -/

/-- A store that fails some changes: `faults` tells which, counted from the next one on. -/
structure Flaky (σ : Type) where
  store : σ
  faults : Nat → Option Fault

namespace Flaky

variable {σ : Type} [Backend σ]

/-- A change that is to fail does not reach the store. -/
def change (now : Millis) (c : Change) (s : Flaky σ) : Store.Reply (Flaky σ) Unit :=
  match s.faults 0 with
  | some e => (.error e, { s with faults := s.faults ∘ (· + 1) })
  | none =>
    let (r, store) := Backend.change now c s.store
    (r, ⟨store, s.faults ∘ (· + 1)⟩)

/-- Asks the store behind. -/
private def ask {α : Type} (question : σ → α × σ) (s : Flaky σ) : α × Flaky σ :=
  let (x, store) := question s.store
  (x, { s with store })

instance : Backend (Flaky σ) where
  change := change
  asset? id := ask (Backend.asset? id)
  search text filters := ask (Backend.search text filters)
  ledger? platform := ask (Backend.ledger? platform)
  edges id := ask (Backend.edges id)
  recentErrors platform limit := ask (Backend.recentErrors platform limit)
  health := ask Backend.health
  isConnected := ask Backend.isConnected

/-- A change fails before the store behind is asked, or it is the store behind that answers. -/
theorem change_cases {now : Millis} {c : Change} {s s' : Flaky σ} {o : Except Fault Unit}
    (h : Backend.change now c s = (o, s')) :
    ((∃ e, o = .error e) ∧ s'.store = s.store) ∨ Backend.change now c s.store = (o, s'.store) := by
  change s.change now c = _ at h
  unfold Flaky.change at h
  cases hfault : s.faults 0 with
  | some e =>
      rw [hfault] at h
      obtain ⟨rfl, rfl⟩ := Prod.mk.inj h
      exact .inl ⟨⟨e, rfl⟩, rfl⟩
  | none =>
      rw [hfault] at h
      rcases hchange : Backend.change now c s.store with ⟨r, store⟩
      rw [hchange] at h
      obtain ⟨rfl, rfl⟩ := Prod.mk.inj h
      exact .inr rfl

end Flaky

/-- Of a store that fails now and then, what is seen is the store behind. -/
def View.flaky {σ κ : Type} [Backend σ] {effect : Millis → Change → κ → κ}
    (v : View σ κ effect) : View (Flaky σ) κ effect where
  seen s := v.seen s.store
  made h := by
    obtain ⟨⟨e, he⟩, -⟩ | hbehind := Flaky.change_cases h
    · exact nomatch he
    · exact v.made hbehind
  failed h := by
    obtain ⟨-, hsame⟩ | hbehind := Flaky.change_cases h
    · exact congrArg v.seen hsame
    · exact v.failed hbehind

end ContentGraph
