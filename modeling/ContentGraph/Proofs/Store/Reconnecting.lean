import ContentGraph.Proofs.Store.MissingTables

/-!
# Reconnecting

A store in a database is asked, released and asked again, and while it is released its file may be
changed from outside. Each connection is made anew, but the tables are made once, by the first
operation that has a connection (`hasSchema_behind`). So an operation finds all four tables exactly
when none had a connection before or the file has them, and it fails for want of one exactly when
some operation had a connection before and it uses a table that the file lacks
(`noTable_of_reconnected`). A table that is dropped behind the first use is not made again
(`dropped_table_stays`).
-/

namespace ContentGraph.RelationalStore

open Store

/-! ## What happens to a store -/

/-- What is asked of a store, or happens to it or its file. -/
inductive Incident
  | ask (now : Millis) (op : Operation)
  /-- The connection is tested. -/
  | probe
  | release
  /-- From outside, other contents and another obstacle to connecting are put in place. -/
  | alter (file : Database) (obstacle : Option Fault)

/-- The store behind an incident. -/
def befall (s : RelationalStore) : Incident → RelationalStore
  | .ask now op => (perform now op s).2
  | .probe => s.isConnected.2
  | .release => s.release
  | .alter file obstacle => { s with database := file, obstacle }

/-- The file is changed from outside while there is no connection. -/
def Incident.Fits (s : RelationalStore) : Incident → Prop
  | .alter _ _ => s.isOpen = false
  | _ => True

/-- Holds for operations. -/
def Incident.Asks : Incident → Prop
  | .ask _ _ => True
  | _ => False

/-- The store behind a history. -/
def behind : List Incident → RelationalStore → RelationalStore
  | [], s => s
  | incident :: history, s => behind history (s.befall incident)

/-- Holds for histories in which each incident fits where it happens. -/
def Fits : List Incident → RelationalStore → Prop
  | [], _ => True
  | incident :: history, s => incident.Fits s ∧ Fits history (s.befall incident)

/-- Holds when something was asked in a history while nothing kept a connection from being made. -/
def Used : List Incident → RelationalStore → Prop
  | [], _ => False
  | incident :: history, s =>
    (incident.Asks ∧ s.obstacle = none) ∨ Used history (s.befall incident)

/-- A store that was opened on a file. -/
def opened (file : Database) (obstacle : Option Fault) : RelationalStore :=
  { database := file, obstacle }

/-! ## One operation -/

variable {s s' : RelationalStore} {now : Millis} {op : Operation} {history : List Incident}

/-- Holds for stores that are connected only where nothing keeps a connection from being made. -/
def Sound (s : RelationalStore) : Prop := s.isOpen = true → s.obstacle = none

theorem prepare_of_obstacle (hsound : s.Sound) {e : Fault} (h : s.obstacle = some e) :
    s.prepare = (.error e, s) := by
  have hclosed : s.isOpen = false := by
    by_contra hopen
    rw [hsound (by simpa using hopen)] at h
    cases h
  unfold prepare connect
  rw [hclosed, h]
  rfl

theorem prepare_of_free (h : s.obstacle = none) :
    s.prepare = (.ok (), ⟨if s.hasSchema then s.database else s.database.createTables, none, true,
      true⟩) := by
  obtain ⟨database, obstacle, isOpen, hasSchema⟩ := s
  simp only at h
  subst h
  unfold prepare connect
  cases isOpen <;> cases hasSchema <;> rfl

/-- Over a connection, an operation is one of the database. -/
theorem perform_of_prepared (h : s.prepare = (.ok (), s')) :
    perform now op s = ((Database.answer now op s'.database).1,
      { s' with database := (Database.answer now op s'.database).2 }) := by
  have hquery {α : Type} (q : Database → Except Fault α) : s.query q = (q s'.database, s') := by
    unfold query
    rw [h]
  cases op with
  | change c =>
      show Reply.map _ (s.execute (Database.change now c)) = _
      unfold execute
      rw [h]
      rfl
  | asset id => exact congrArg (Reply.map _) (hquery _)
  | search query filters => exact congrArg (Reply.map _) (hquery _)
  | ledger platform => exact congrArg (Reply.map _) (hquery _)
  | edges id => exact congrArg (Reply.map _) (hquery _)
  | recentErrors platform limit => exact congrArg (Reply.map _) (hquery _)
  | health =>
      show ((.ok (.health s.health.1), s.health.2) : Reply RelationalStore Result) = _
      unfold health Database.answer
      rw [hquery]
      dsimp only
      cases Database.health s'.database with
      | ok report => rfl
      | error e => rfl

/-- Without a connection an operation fails and changes nothing. -/
theorem perform_of_unprepared {e : Fault} (h : s.prepare = (.error e, s)) :
    perform now op s = (op.failed e, s) := by
  have hquery {α : Type} (q : Database → Except Fault α) : s.query q = (.error e, s) := by
    unfold query
    rw [h]
  cases op with
  | change c =>
      show Reply.map _ (s.execute (Database.change now c)) = _
      unfold execute
      rw [h]
      rfl
  | asset id => exact congrArg (Reply.map _) (hquery _)
  | search query filters => exact congrArg (Reply.map _) (hquery _)
  | ledger platform => exact congrArg (Reply.map _) (hquery _)
  | edges id => exact congrArg (Reply.map _) (hquery _)
  | recentErrors platform limit => exact congrArg (Reply.map _) (hquery _)
  | health =>
      show ((.ok (.health s.health.1), s.health.2) : Reply RelationalStore Result) = _
      unfold health
      rw [hquery]
      rfl

/-! ## Histories -/

theorem Sound.isConnected (hsound : s.Sound) : s.isConnected.2.Sound := by
  unfold RelationalStore.isConnected connect
  cases hopen : s.isOpen with
  | true => exact hsound
  | false =>
      cases hobstacle : s.obstacle with
      | none => exact fun _ => rfl
      | some e => exact hsound

theorem isConnected_hasSchema (s : RelationalStore) : s.isConnected.2.hasSchema = s.hasSchema := by
  unfold RelationalStore.isConnected connect
  cases s.isOpen with
  | true => rfl
  | false => cases s.obstacle <;> rfl

/-- **Step.** A connection stands only where nothing is in its way. -/
theorem Sound.befall (hsound : s.Sound) {incident : Incident} (hfits : incident.Fits s) :
    (s.befall incident).Sound := by
  cases incident with
  | ask now op =>
      dsimp only [RelationalStore.befall]
      cases hobstacle : s.obstacle with
      | none =>
          rw [perform_of_prepared (prepare_of_free hobstacle)]
          exact fun _ => rfl
      | some e =>
          rw [perform_of_unprepared (prepare_of_obstacle hsound hobstacle)]
          exact hsound
  | probe => exact hsound.isConnected
  | release => exact fun hopen => absurd hopen Bool.false_ne_true
  | alter file obstacle =>
      intro hopen
      exact absurd (hfits.symm.trans hopen) Bool.false_ne_true

/-- **Step.** The tables are made by an operation that has a connection, and by nothing else. -/
theorem hasSchema_befall (hsound : s.Sound) (incident : Incident) :
    (s.befall incident).hasSchema = true
      ↔ (incident.Asks ∧ s.obstacle = none) ∨ s.hasSchema = true := by
  cases incident with
  | ask now op =>
      dsimp only [RelationalStore.befall]
      rw [and_iff_right (show (Incident.ask now op).Asks from trivial)]
      cases hobstacle : s.obstacle with
      | none =>
          rw [perform_of_prepared (prepare_of_free hobstacle)]
          exact iff_of_true rfl (.inl rfl)
      | some e =>
          rw [perform_of_unprepared (prepare_of_obstacle hsound hobstacle)]
          exact (or_iff_right (Option.some_ne_none e)).symm
  | probe =>
      show s.isConnected.2.hasSchema = true ↔ _
      rw [isConnected_hasSchema]
      exact (or_iff_right And.left).symm
  | release => exact (or_iff_right And.left).symm
  | alter file obstacle => exact (or_iff_right And.left).symm

/-- **Run.** The tables have been made just when an operation had a connection before. -/
theorem hasSchema_behind (hsound : s.Sound) (hfits : Fits history s) :
    (behind history s).Sound
      ∧ ((behind history s).hasSchema = true ↔ Used history s ∨ s.hasSchema = true) := by
  induction history generalizing s with
  | nil => exact ⟨hsound, (or_iff_right id).symm⟩
  | cons incident history ih =>
      obtain ⟨hfirst, hrest⟩ := hfits
      obtain ⟨hthen, hiff⟩ := ih (hsound.befall hfirst) hrest
      refine ⟨hthen, hiff.trans ?_⟩
      show _ ↔ (_ ∨ Used history (s.befall incident)) ∨ _
      rw [hasSchema_befall hsound, or_left_comm, or_assoc]

/-! ## Reconnecting -/

/-- **Reconnecting.** Whatever happened to a store, an operation without a connection fails for what
is in its way. One with a connection finds all four tables just when no operation had one before or
the file has them. It fails for want of a table just when some operation had a connection before and
the table is the first of those it uses that the file lacks; and it takes none away. -/
theorem noTable_of_reconnected {file : Database} {obstacle : Option Fault}
    (hfits : Fits history (opened file obstacle)) (hs : behind history (opened file obstacle) = s)
    (now : Millis) (op : Operation) :
    (∀ e, s.obstacle = some e → perform now op s = (op.failed e, s))
      ∧ (s.obstacle = none →
        (s.prepare.2.database.HasAll
          ↔ (Used history (opened file obstacle) → s.database.HasAll))
        ∧ (∀ t, (perform now op s).1 = op.failed (.noTable t)
          ↔ Used history (opened file obstacle) ∧ s.database.missing? op.tables = some t)
        ∧ ∀ name, s.database.has name = true →
          (perform now op s).2.database.has name = true) := by
  have hstart : (opened file obstacle).Sound := fun hopen => absurd hopen Bool.false_ne_true
  have hunmade : ¬(opened file obstacle).hasSchema = true := Bool.false_ne_true
  obtain ⟨hsound, hused⟩ := hasSchema_behind hstart hfits
  rw [hs] at hsound hused
  rw [or_iff_left hunmade] at hused
  refine ⟨fun e he => perform_of_unprepared (prepare_of_obstacle hsound he), fun hfree => ?_⟩
  have hprepare := prepare_of_free hfree
  rw [perform_of_prepared hprepare, hprepare, ← hused]
  dsimp only
  cases hschema : s.hasSchema with
  | false =>
      rw [if_neg Bool.false_ne_true]
      have hall := s.database.hasAll_createTables
      refine ⟨iff_of_true hall fun h => absurd h Bool.false_ne_true, fun t => ?_, fun name h => ?_⟩
      · rw [Database.answer_eq_failed_iff, Database.missing?_of_hasAll hall]
        exact iff_of_false (Option.some_ne_none t).symm fun h => Bool.false_ne_true h.1
      · exact Database.has_answer (Database.has_createTables h)
  | true =>
      rw [if_pos rfl]
      refine ⟨⟨fun h _ => h, fun h => h rfl⟩, fun t => ?_, fun name h => Database.has_answer h⟩
      rw [Database.answer_eq_failed_iff, and_iff_right rfl]

/-- A store is asked for an asset and released, and the table of assets is dropped. -/
def droppedTable : List Incident :=
  [.ask 0 (.asset "a"), .release,
    .alter { edges := some [], ledger := some [], errors := some [] } none]

/-- Behind that the store is connected again, and the same question fails for want of the table. -/
theorem noTable_of_reconnected_droppedTable :
    Fits droppedTable (opened {} none)
      ∧ (perform 1 (.asset "a") (behind droppedTable (opened {} none))).1
        = .error (.noTable Database.assetTable)
      ∧ ¬(behind droppedTable (opened {} none)).prepare.2.database.HasAll := by
  have hfits : Fits droppedTable (opened {} none) := ⟨trivial, trivial, rfl, trivial⟩
  have hfree : (behind droppedTable (opened {} none)).obstacle = none := rfl
  have hused : Used droppedTable (opened {} none) := .inl ⟨trivial, rfl⟩
  obtain ⟨-, hconnected⟩ := noTable_of_reconnected hfits rfl 1 (.asset "a")
  obtain ⟨hall, hfails, -⟩ := hconnected hfree
  refine ⟨hfits, (hfails _).2 ⟨hused, rfl⟩, fun h => ?_⟩
  have hfile := hall.1 h hused
  revert hfile
  decide

/-- The first operation behind a release does not make a table again that was dropped meanwhile. -/
theorem dropped_table_stays :
    ¬∀ (history changes : List Incident) (file : Database) (obstacle : Option Fault),
      (∀ incident ∈ changes, ∃ file obstacle, incident = .alter file obstacle) →
      Fits (history ++ .release :: changes) (opened file obstacle) →
      ∀ s, behind (history ++ .release :: changes) (opened file obstacle) = s →
      s.obstacle = none → ∀ now op,
        s.prepare.2.database.HasAll ∧ ∀ t, (perform now op s).1 ≠ .error (.noTable t) := by
  intro h
  obtain ⟨-, hfound⟩ := h [.ask 0 (.asset "a")]
    [.alter { edges := some [], ledger := some [], errors := some [] } none] {} none
    (List.forall_mem_singleton.2 ⟨_, _, rfl⟩) ⟨trivial, trivial, rfl, trivial⟩ _ rfl rfl 1
    (.asset "a")
  exact hfound _ rfl

end ContentGraph.RelationalStore
