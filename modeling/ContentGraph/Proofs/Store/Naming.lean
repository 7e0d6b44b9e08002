import ContentGraph.Proofs.Asset.Legible
import ContentGraph.Proofs.Store.Accepted

/-!
# What live assets name

The metadata of a live asset is read back as metadata that restates it: it names the platform and the
time of extraction that it named when it was ingested, and where it had no field for one of them, the
source of the asset and the time of the ingestion. Main statement: both kinds of store show it so
behind every history (`restated_of_live`). A field that is there but holds no text is left as it is, so
what it should name is not named (`nullPlatform_unnamed`).
-/

namespace ContentGraph.Store

/-- Under the id of a live asset it is shown, with metadata that restates its own. -/
theorem readLive_of_live {L : List (Millis × Change)} {t : Millis} {a : Asset}
    (hlive : (t, a) ∈ liveAssets L) (hproper : a.metadata.Proper) (hlegible : a.metadata.Legible) :
    ∃ m', readLive (liveAssets L) a.id = .ok (some { a with metadata := m' })
      ∧ a.metadata.Restates a.source t.iso m' := by
  obtain ⟨-, m', hread, hnames⟩ | ⟨hdeep, -⟩ := Asset.readBack_cases hproper t
  · refine ⟨m', ?_, hnames⟩
    unfold readLive
    rw [find?_liveAssets hlive]
    exact congrArg (Except.map some) hread
  · exact absurd hlegible hdeep

/-- **Naming.** Behind any history get shows an asset that is live, if its metadata is legible, with
metadata that names its platform and its time of extraction as it did, or, where it had no field for
them, its source and the time when it was ingested. -/
theorem restated_of_live {events : List Event} {t : Millis} {a : Asset}
    (hproper : a.metadata.Proper) (hlegible : a.metadata.Legible) :
    ((t, a) ∈ liveAssets (memoryAccepted events) → ∃ m',
        (Backend.asset? a.id (memoryBehind events)).1 = .ok (some { a with metadata := m' })
          ∧ a.metadata.Restates a.source t.iso m')
      ∧ ((t, a) ∈ liveAssets (relationalAccepted events) → ∃ m',
        (Backend.asset? a.id (relationalBehind events)).1 = .ok (some { a with metadata := m' })
          ∧ a.metadata.Restates a.source t.iso m') := by
  constructor
  · intro hlive
    obtain ⟨m', hread, hnames⟩ := readLive_of_live hlive hproper hlegible
    exact ⟨m', (MemoryStore.asset?_behind events a.id).trans hread, hnames⟩
  · intro hlive
    obtain ⟨m', hread, hnames⟩ := readLive_of_live hlive hproper hlegible
    exact ⟨m', (RelationalStore.asset?_behind events a.id).trans hread, hnames⟩

/-- A note under whose platform stands some value. -/
def platformNote (platform : Json) : Asset :=
  ⟨"a", "A", "text", .asset, "s", .untyped [("platform", platform)]⟩

theorem proper_platformNote {platform : Json} (h : platform.Proper) :
    (platformNote platform).metadata.Proper :=
  .object (List.pairwise_singleton _ _) fun p hp => by
    obtain rfl := List.mem_singleton.1 hp
    exact h

/-- The note is ingested and shown, under a platform of its own and a time that is filled in. -/
theorem restated_of_live_platformNote :
    let a := platformNote (.string "p")
    let events : List Event := [.ask 5 (.change (.ingest a)), .reopen]
    (5, a) ∈ liveAssets (memoryAccepted events) ∧ (5, a) ∈ liveAssets (relationalAccepted events)
      ∧ ∃ m', (Backend.asset? "a" (relationalBehind events)).1 = .ok (some { a with metadata := m' })
        ∧ m'.platform? = some "p" ∧ m'.extractedAt? = some (Millis.iso 5) := by
  intro a events
  have hmemory : memoryAccepted events = [(5, .ingest a)] := rfl
  have hrelational : relationalAccepted events = [(5, .ingest a)] := rfl
  have hlive : (5, a) ∈ liveAssets [(5, .ingest a)] := List.mem_singleton_self _
  obtain ⟨-, hread⟩ :=
    @restated_of_live events 5 a (proper_platformNote (.string "p")) (by decide)
  obtain ⟨m', hread, hplatform, hdate⟩ := hread (hrelational ▸ hlive)
  exact ⟨hmemory ▸ hlive, hrelational ▸ hlive, m', hread, hplatform, hdate⟩

/-- A platform that is `null` is not filled in, so the asset that is shown names none. -/
theorem nullPlatform_unnamed :
    (¬∀ (now : Millis) (a : Asset), a.metadata.Proper → a.metadata.Legible → ∃ a',
        (Backend.asset? a.id (perform now (.change (.ingest a)) ({} : MemoryStore)).2).1 = .ok (some a')
          ∧ a'.metadata.platform?.isSome = true ∧ a'.metadata.extractedAt?.isSome = true)
      ∧ ¬∀ (now : Millis) (a : Asset), a.metadata.Proper → a.metadata.Legible → ∃ a',
        (Backend.asset? a.id (perform now (.change (.ingest a)) ({} : RelationalStore)).2).1
            = .ok (some a')
          ∧ a'.metadata.platform?.isSome = true ∧ a'.metadata.extractedAt?.isSome = true := by
  have hproper := proper_platformNote .null
  have hlegible : (platformNote .null).metadata.Legible := by decide
  let events : List Event := [.ask 0 (.change (.ingest (platformNote .null)))]
  -- on both sides the note is the only live asset
  have hmemory : memoryAccepted events = [(0, .ingest (platformNote .null))] := rfl
  have hrelational : relationalAccepted events = [(0, .ingest (platformNote .null))] := rfl
  obtain ⟨m', hread, hnames⟩ := readLive_of_live
    (show (0, platformNote .null) ∈ liveAssets [(0, .ingest (platformNote .null))] from
      List.mem_singleton_self _) hproper hlegible
  have hunnamed {r : Except Fault (Option Asset)}
      (hr : r = .ok (some { platformNote .null with metadata := m' }))
      (h : ∃ a', r = .ok (some a') ∧ a'.metadata.platform?.isSome = true
        ∧ a'.metadata.extractedAt?.isSome = true) : False := by
    obtain ⟨a', ha', hplatform, -⟩ := h
    obtain rfl := Option.some.inj (Except.ok.inj (ha'.symm.trans hr))
    rw [hnames.platform] at hplatform
    cases hplatform
  constructor
  · intro h
    have hshown := MemoryStore.asset?_behind events (platformNote .null).id
    rw [hmemory, hread] at hshown
    have hnamed := h 0 _ hproper hlegible
    rw [show (perform 0 _ ({} : MemoryStore)).2 = memoryBehind events from rfl] at hnamed
    exact hunnamed hshown hnamed
  · intro h
    have hshown := RelationalStore.asset?_behind events (platformNote .null).id
    rw [hrelational, hread] at hshown
    have hnamed := h 0 _ hproper hlegible
    rw [show (perform 0 _ ({} : RelationalStore)).2 = relationalBehind events from rfl] at hnamed
    exact hunnamed hshown hnamed

end ContentGraph.Store
