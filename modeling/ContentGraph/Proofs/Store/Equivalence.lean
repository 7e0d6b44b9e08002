import ContentGraph.Proofs.Store.Answers
import ContentGraph.Store.Relational

/-!
# Both kinds of store answer alike

A history asks a store one thing after another; in between the connection may be closed and the
store may be opened anew on the same database. Main statement: over an admissible history the
empty store in memory and the empty database give the same answers, up to the name of what keeps
the assets (`answers_agree`). The simulation is `Linked`: a store that is not prepared yet counts
as the database that it will be once it is.
-/

namespace ContentGraph.Store

/-! ## Histories -/

/-- What happens to a store: it is asked something at a time, its connection is closed, or it is
opened anew on what it keeps. -/
inductive Event
  | ask (now : Millis) (operation : Operation)
  | release
  | reopen

/-- The time that is read when a store is asked something. -/
def Event.time? : Event → Option Millis
  | .ask now _ => some now
  | _ => none

/-- The answers of a store to a history. -/
def answers {σ : Type} [Backend σ] (release reopen : σ → σ) :
    List Event → σ → List (Except Fault Result)
  | [], _ => []
  | .ask now operation :: events, s =>
    let (answer, s) := perform now operation s
    answer :: answers release reopen events s
  | .release :: events, s => answers release reopen events (release s)
  | .reopen :: events, s => answers release reopen events (reopen s)

/-- A store in memory has no connection to close. -/
def memoryAnswers : List Event → MemoryStore → List (Except Fault Result) := answers id id

/-- A database keeps its tables over closing and opening. -/
def relationalAnswers : List Event → RelationalStore → List (Except Fault Result) :=
  answers RelationalStore.release RelationalStore.reopen

/-- Holds for operations whose texts can be read back and whose limit is a machine word. -/
def Operation.Fits : Operation → Prop
  | .change c => c.Fits
  | .recentErrors _ limit => limit < Word.count 64
  | _ => True

/-- Holds for events that do not ask for more than fits. -/
def Event.Fits : Event → Prop
  | .ask _ operation => operation.Fits
  | _ => True

/-- Histories in which the clock never goes back and every operation fits. They are shorter than
a signed word counts, as is every list in memory and every table of rows. -/
structure Admissible (events : List Event) : Prop where
  clock : (events.filterMap Event.time?).Pairwise (· ≤ ·)
  fits : ∀ event ∈ events, event.Fits
  short : events.length < Word.count 63

/-- A result that does not tell what keeps the assets. -/
def Result.withoutEngine : Result → Result
  | .health report => .health (Store.withoutEngine report)
  | r => r

/-! ## The simulation -/

/-- A store whose database, once prepared, mirrors a store in memory. -/
structure Linked (now : Millis) (m : MemoryStore) (s : RelationalStore) : Prop where
  reachable : s.obstacle = none
  schema : s.hasSchema = true → s.database.createTables = s.database
  mirrors : Mirrors now m s.database.createTables

variable {now t : Millis} {m : MemoryStore} {s : RelationalStore}

/-- A prepared store is linked when its database mirrors. -/
theorem Linked.ofMirrors {d : Database} (h : Mirrors now m d) (isOpen hasSchema : Bool) :
    Linked now m ⟨d, none, isOpen, hasSchema⟩ where
  reachable := rfl
  schema := fun _ => h.createTables
  mirrors := by
    show Mirrors now m d.createTables
    rw [h.createTables]
    exact h

/-- The empty stores are linked. -/
theorem linked_empty (now : Millis) : Linked now {} {} where
  reachable := rfl
  schema := fun h => absurd h (by decide)
  mirrors := mirrors_empty now

theorem Linked.release (h : Linked now m s) : Linked now m s.release :=
  ⟨h.reachable, h.schema, h.mirrors⟩

/-- Opening anew forgets that the tables were made, and makes them again when they are needed. -/
theorem Linked.reopen (h : Linked now m s) : Linked now m s.reopen :=
  ⟨h.reachable, fun hs => absurd hs Bool.false_ne_true, h.mirrors⟩

/-- Preparing never fails, and leaves the database with all tables. -/
theorem Linked.prepare (h : Linked now m s) :
    s.prepare = (.ok (), ⟨s.database.createTables, none, true, true⟩) :=
  RelationalStore.prepare_eq h.reachable h.schema

/-- A statement runs on the prepared database. -/
theorem Linked.execute (h : Linked t m s) {statement : Database.Statement Unit} {d : Database}
    {m' : MemoryStore} (hd : statement s.database.createTables = (.ok (), d))
    (hm : Mirrors now m' d) :
    ∃ s', s.execute statement = (.ok (), s') ∧ Linked now m' s' := by
  refine ⟨⟨d, none, true, true⟩, ?_, .ofMirrors hm _ _⟩
  unfold RelationalStore.execute
  rw [h.prepare]
  simp only [hd]

/-- A query is answered from the prepared database. -/
theorem Linked.query (h : Linked t m s) (ht : t ≤ now) {α : Type}
    (q : Database → Except Fault α) :
    ∃ s', s.query q = (q s.database.createTables, s') ∧ Linked now m s' := by
  refine ⟨⟨s.database.createTables, none, true, true⟩, ?_, .ofMirrors (h.mirrors.mono ht) _ _⟩
  unfold RelationalStore.query
  rw [h.prepare]

/-- A query that has an answer gives a result. -/
theorem Linked.ask (h : Linked t m s) (ht : t ≤ now) {α : Type} {q : Database → Except Fault α}
    {x : α} (hq : q s.database.createTables = .ok x) (f : α → Result) :
    ∃ s', Reply.map f (s.query q) = (.ok (f x), s') ∧ Linked now m s' := by
  obtain ⟨s', hs, hlinked⟩ := h.query ht q
  refine ⟨s', ?_, hlinked⟩
  rw [hs, hq]
  rfl

/-- A change adds at most one asset and one error. -/
theorem length_change (now : Millis) (c : Change) (m : MemoryStore) :
    (m.change now c).assets.length ≤ m.assets.length + 1
      ∧ (m.change now c).errors.length ≤ m.errors.length + 1 := by
  cases c with
  | ingest a =>
      refine ⟨?_, Nat.le_succ _⟩
      simp only [MemoryStore.change, MemoryStore.ingest, List.length_append,
        List.length_singleton]
      exact Nat.succ_le_succ (List.length_filter_le _ _)
  | remove id =>
      exact ⟨Nat.le_succ_of_le (List.length_filter_le _ _), Nat.le_succ _⟩
  | record platform fields => exact ⟨Nat.le_succ _, Nat.le_succ _⟩
  | relate e =>
      show (m.relate e).assets.length ≤ _ ∧ (m.relate e).errors.length ≤ _
      rw [MemoryStore.relate_eq]
      exact ⟨Nat.le_succ _, Nat.le_succ _⟩
  | clear origin kind => exact ⟨Nat.le_succ _, Nat.le_succ _⟩
  | logError platform message =>
      refine ⟨Nat.le_succ _, ?_⟩
      show (m.errors ++ [_]).length ≤ _
      rw [List.length_append]
      exact Nat.le_refl _

/-- **Step.** An operation that fits gives results on both sides that agree, and leaves the stores
linked. -/
theorem Linked.perform (h : Linked t m s) (ht : t ≤ now) {operation : Operation}
    (hfits : operation.Fits) (hassets : m.assets.length < Word.count 63)
    (herrors : m.errors.length < Word.count 63) :
    ∃ r r' m' s', Store.perform now operation m = (.ok r, m')
      ∧ Store.perform now operation s = (.ok r', s')
      ∧ r.withoutEngine = r'.withoutEngine ∧ Linked now m' s'
      ∧ m'.assets.length ≤ m.assets.length + 1 ∧ m'.errors.length ≤ m.errors.length + 1 := by
  have hkeep : m.assets.length ≤ m.assets.length + 1 ∧ m.errors.length ≤ m.errors.length + 1 :=
    ⟨Nat.le_succ _, Nat.le_succ _⟩
  cases operation with
  | change c =>
      obtain ⟨d, hd, hm⟩ := h.mirrors.change ht hfits
      obtain ⟨s', hs, hlinked⟩ := h.execute hd hm
      refine ⟨.done, .done, _, s', rfl, ?_, rfl, hlinked, length_change now c m⟩
      show Reply.map _ (s.execute (Database.change now c)) = _
      rw [hs]
      rfl
  | asset id =>
      obtain ⟨asset, hm, hd⟩ := h.mirrors.asset? id
      obtain ⟨s', hs, hlinked⟩ := h.ask ht hd .asset
      refine ⟨.asset asset, .asset asset, m, s', ?_, hs, rfl, hlinked, hkeep⟩
      show Reply.map _ (m.asset? id, m) = _
      rw [hm]
      rfl
  | search query filters =>
      obtain ⟨page, hm, hd⟩ := h.mirrors.search query filters hassets
      obtain ⟨s', hs, hlinked⟩ := h.ask ht hd .page
      refine ⟨.page page, .page page, m, s', ?_, hs, rfl, hlinked, hkeep⟩
      show Reply.map _ (m.search query filters, m) = _
      rw [hm]
      rfl
  | ledger platform =>
      obtain ⟨s', hs, hlinked⟩ := h.ask ht (h.mirrors.ledger? platform) .ledger
      exact ⟨_, _, m, s', rfl, hs, rfl, hlinked, hkeep⟩
  | edges id =>
      obtain ⟨s', hs, hlinked⟩ := h.ask ht (h.mirrors.edgesOf id) .edges
      exact ⟨_, _, m, s', rfl, hs, rfl, hlinked, hkeep⟩
  | recentErrors platform limit =>
      obtain ⟨s', hs, hlinked⟩ := h.ask ht (h.mirrors.recentErrors platform hfits herrors) .errors
      exact ⟨_, _, m, s', rfl, hs, rfl, hlinked, hkeep⟩
  | health =>
      obtain ⟨report, hd, hreport⟩ := h.mirrors.health
      obtain ⟨s', hs, hlinked⟩ := h.query ht Database.health
      refine ⟨.health m.health, .health report, m, s', rfl, ?_, ?_, hlinked, hkeep⟩
      · have hhealth : s.health = (report, s') := by
          unfold RelationalStore.health
          rw [hs, hd]
        show (Except.ok (Result.health s.health.1), s.health.2) = _
        rw [hhealth]
      · exact congrArg Result.health hreport.symm

/-- **Run.** Linked stores answer alike to all that follows. -/
theorem Linked.answers_eq {events : List Event} (h : Linked t m s)
    (hfirst : ∀ now ∈ events.filterMap Event.time?, t ≤ now) (hadm : Admissible events)
    (hassets : m.assets.length + events.length < Word.count 63)
    (herrors : m.errors.length + events.length < Word.count 63) :
    (memoryAnswers events m).map (·.map Result.withoutEngine)
        = (relationalAnswers events s).map (·.map Result.withoutEngine)
      ∧ ∀ answer ∈ memoryAnswers events m, answer.isOk = true := by
  induction events generalizing t m s with
  | nil => exact ⟨rfl, fun _ h => absurd h List.not_mem_nil⟩
  | cons event events ih =>
      obtain ⟨hclock, hfits, hshort⟩ := hadm
      rw [List.length_cons] at hshort hassets herrors
      obtain ⟨hevent, hrest⟩ := List.forall_mem_cons.1 hfits
      have hassets' : m.assets.length + events.length < Word.count 63 := by omega
      have herrors' : m.errors.length + events.length < Word.count 63 := by omega
      cases event with
      | release => exact ih h.release hfirst ⟨hclock, hrest, by omega⟩ hassets' herrors'
      | reopen => exact ih h.reopen hfirst ⟨hclock, hrest, by omega⟩ hassets' herrors'
      | ask now operation =>
          have htimes : (Event.ask now operation :: events).filterMap Event.time?
              = now :: events.filterMap Event.time? := rfl
          rw [htimes] at hfirst hclock
          obtain ⟨hnow, hclock⟩ := List.pairwise_cons.1 hclock
          obtain ⟨r, r', m', s', hm, hs, hr, hlinked, hmore, hlonger⟩ :=
            h.perform (hfirst now List.mem_cons_self) hevent (by omega) (by omega)
          obtain ⟨heq, hok⟩ :=
            ih hlinked hnow ⟨hclock, hrest, by omega⟩ (by omega) (by omega)
          have hmem : memoryAnswers (.ask now operation :: events) m
              = .ok r :: memoryAnswers events m' := by
            unfold memoryAnswers
            rw [answers, hm]
          have hrel : relationalAnswers (.ask now operation :: events) s
              = .ok r' :: relationalAnswers events s' := by
            unfold relationalAnswers
            rw [answers, hs]
          rw [hmem, hrel]
          -- the first answers agree by the step, the others by induction
          refine ⟨?_, fun answer hanswer => ?_⟩
          · rw [List.map_cons, List.map_cons, heq]
            exact congrArg (· :: _) (congrArg Except.ok hr)
          · rcases List.mem_cons.1 hanswer with rfl | hanswer
            · rfl
            · exact hok answer hanswer

/-- The times of a history are all past some time. -/
theorem exists_le_times {events : List Event} (h : Admissible events) :
    ∃ t, ∀ now ∈ events.filterMap Event.time?, t ≤ now := by
  have hclock := h.clock
  cases htimes : events.filterMap Event.time? with
  | nil => exact ⟨0, fun _ h => absurd h List.not_mem_nil⟩
  | cons t times =>
      rw [htimes] at hclock
      refine ⟨t, fun now hnow => ?_⟩
      rcases List.mem_cons.1 hnow with rfl | hnow
      · exact Int.le_refl _
      · exact (List.pairwise_cons.1 hclock).1 now hnow

/-- **Both kinds of store answer alike.** Over an admissible history the empty store in memory and
the empty database answer every operation, and with the same results, but for what a report on
health tells of the engine. -/
theorem answers_agree {events : List Event} (h : Admissible events) :
    (memoryAnswers events {}).map (·.map Result.withoutEngine)
        = (relationalAnswers events {}).map (·.map Result.withoutEngine)
      ∧ ∀ answer ∈ memoryAnswers events {}, answer.isOk = true := by
  obtain ⟨t, ht⟩ := exists_le_times h
  have hempty : ([] : List StoredAsset).length + events.length < Word.count 63 := by
    simpa using h.short
  exact (linked_empty t).answers_eq ht h hempty hempty

/-- Fields with an array in which there is an object. -/
def nestedFields : Fields := .ofList [
  ("platform", .string "react"), ("size", .ofNat 7), ("tags", .array [.ofFields [("a", .null)]])]

/-- A history in which an asset with nested fields is stored twice, once after it was taken away,
and a ledger is given reserved fields; its limits pass the greatest signed word, and it closes and
reopens the store in between. -/
def crossedHistory : List Event :=
  let button : Asset := ⟨"a", "Button", "props", .asset, "react", .untyped nestedFields⟩
  let card : Asset := ⟨"b", "Card", "uses Button", .asset, "react", .untyped []⟩
  [ .ask 5 (.change (.ingest button)), .ask 5 (.change (.ingest card)), .release,
    .ask 6 (.change (.relate ⟨"b", "a", importKind⟩)),
    .ask 6 (.change (.relate ⟨"b", "a", importKind⟩)),
    .ask 6 (.change (.remove "a")), .ask 6 (.edges "b"), .reopen,
    .ask 7 (.change (.ingest button)), .ask 7 (.asset "a"),
    .ask 7 (.search "Button" { limit := some (Word.count 64 - 1) }),
    .ask 7 (.search "" { limit := some 0 }),
    .ask 8 (.change (.record "docs" (.ofList [("platform", .null), ("totalFiles", .ofNat 2)]))),
    .ask 8 (.change (.record "react" (.ofList [("updatedAt", .bool true)]))),
    .ask 8 (.ledger "docs"), .ask 8 .health,
    .ask 9 (.change (.logError "docs" "late")), .reopen,
    .ask 9 (.recentErrors "docs" (Word.count 63)) ]

theorem admissible_crossedHistory : Admissible crossedHistory where
  clock := by decide
  short := by decide
  fits := by
    have hnested : Json.Fits (126 + 1) (.object nestedFields) := by
      refine Json.fits_ofList ?_
      have hinner : Json.Fits (124 + 1) (.ofFields [("a", .null)]) :=
        Json.fits_ofList (List.forall_mem_singleton.2 .null)
      have htags : Json.Fits (125 + 1) (.array [.ofFields [("a", .null)]]) :=
        .array (List.forall_mem_singleton.2 hinner)
      simp only [List.forall_mem_cons]
      exact ⟨.string _, .integer (by decide), htags, List.forall_mem_nil _⟩
    have hdocs : Json.Fits (126 + 1) (.ofFields [("platform", .null), ("totalFiles", .ofNat 2)]) :=
      Json.fits_ofList (by
        simp only [List.forall_mem_cons]
        exact ⟨.null, .integer (by decide), List.forall_mem_nil _⟩)
    have hreact : Json.Fits (126 + 1) (.ofFields [("updatedAt", .bool true)]) :=
      Json.fits_ofList (List.forall_mem_singleton.2 (.bool true))
    simp only [crossedHistory, List.forall_mem_cons]
    exact ⟨hnested, Json.fits_empty 126, trivial, trivial, trivial, trivial, trivial, trivial,
      hnested, trivial, trivial, trivial, hdocs, hreact, trivial, trivial, trivial, trivial,
      (by decide : Word.count 63 < Word.count 64), List.forall_mem_nil _⟩

theorem answers_agree_crossedHistory :
    Admissible crossedHistory
      ∧ (memoryAnswers crossedHistory {}).map (·.map Result.withoutEngine)
          = (relationalAnswers crossedHistory {}).map (·.map Result.withoutEngine)
      ∧ ∀ answer ∈ memoryAnswers crossedHistory {}, answer.isOk = true :=
  ⟨admissible_crossedHistory, answers_agree admissible_crossedHistory⟩

end ContentGraph.Store
