import ContentGraph.Proofs.Store.LegibleLedger
import ContentGraph.Proofs.Store.Shelf

/-!
# Operations that fail

An operation on a database in use fails for want of a table, or over a text that cannot be read. A
change says beforehand what it needs (`Change.Feasible`), and is made exactly when the database has
that, whatever tables are missing and whatever the rows hold. Main statement: an operation that
fails leaves every row of every table, also where it had deleted some before it failed
(`rows_kept_of_fault`).
-/

namespace ContentGraph

open Store

/-! ## What a change needs -/

/-- Holds when a database has the tables that a change is about, and for an update of a ledger
nothing under its platform that cannot be read. -/
def Store.Change.Feasible (d : Database) : Change → Prop
  | .ingest _ => d.assets.isSome
  | .remove _ => d.edges.isSome ∧ d.assets.isSome
  | .record platform _ => ∃ rows, d.ledger = some rows ∧
      ∀ row, rows.find? (·.platform = platform) = some row → row.fields?.isSome
  | .relate _ => d.edges.isSome
  | .clear _ _ => d.edges.isSome
  | .logError _ _ => d.errors.isSome

namespace Database

variable {d : Database}

theorem onRows_isOk {α : Type} {name : String} {table : Database → Option (List α)}
    {put : List α → Database → Database} {f : List α → List α} :
    (onRows name table put f d).1.isOk = (table d).isSome := by
  unfold onRows
  cases table d with
  | none => rfl
  | some rows => rfl

theorem transaction_isOk {α : Type} (body : Statement α) :
    (transaction body d).1.isOk = (body d).1.isOk := by
  unfold transaction
  rcases body d with ⟨_ | _, _⟩
  · rfl
  · rfl

theorem remove_isOk (id : String) :
    (remove id d).1.isOk = (d.edges.isSome && d.assets.isSome) := by
  unfold remove
  rw [transaction_isOk]
  cases hedges : d.edges with
  | none => simp only [andThen, deleteEdges, onEdges, onRows, hedges]; rfl
  | some edges =>
      simp only [andThen, deleteEdges, onEdges_eq hedges]
      exact onRows_isOk

theorem isOk_map {α β : Type} (f : α → β) (r : Except Fault α) : (r.map f).isOk = r.isOk := by
  cases r with
  | error e => rfl
  | ok x => rfl

theorem isOk_decode (row : LedgerRow) : row.decode.isOk = row.fields?.isSome := by
  unfold LedgerRow.decode
  cases row.fields? with
  | none => rfl
  | some fields => rfl

theorem isOk_readLedger_iff {rows : List LedgerRow} {platform : String} :
    (RelationalStore.readLedger rows platform).isOk = true
      ↔ ∀ row, rows.find? (·.platform = platform) = some row → row.fields?.isSome := by
  unfold RelationalStore.readLedger
  cases hrow : rows.find? (·.platform = platform) with
  | none => exact iff_of_true rfl nofun
  | some row =>
      show (row.decode.map some).isOk = true ↔ _
      rw [isOk_map, isOk_decode]
      constructor
      · intro hfields row' hrow'
        rwa [← Option.some.inj hrow']
      · intro hfields
        exact hfields row rfl

theorem record_isOk_iff {now : Millis} {platform : String} {fields : Fields} :
    (record now platform fields d).1.isOk = true
      ↔ (Change.record platform fields).Feasible d := by
  cases hrows : d.ledger with
  | none =>
      have hselect : (selectFields platform d).1 = .error (.noTable ledgerTable) := by
        unfold selectFields
        rw [hrows]
        rfl
      rw [record_eq_error hselect]
      refine iff_of_false Bool.false_ne_true ?_
      rintro ⟨rows, hsome, -⟩
      rw [hrows] at hsome
      exact nomatch hsome
  | some rows =>
      rw [record_fst hrows, isOk_map, isOk_readLedger_iff]
      constructor
      · intro hlegible
        exact ⟨rows, hrows, hlegible⟩
      · rintro ⟨rows', hrows', hlegible⟩
        obtain rfl : rows = rows' := Option.some.inj (hrows.symm.trans hrows')
        exact hlegible

/-- A change is made exactly when the database has what it needs. -/
theorem change_isOk_iff {now : Millis} {c : Change} :
    (change now c d).1.isOk = true ↔ c.Feasible d := by
  cases c with
  | ingest a => exact iff_of_eq (congrArg (· = true) onRows_isOk)
  | remove id =>
      show (remove id d).1.isOk = true ↔ _
      rw [remove_isOk, Bool.and_eq_true]
      rfl
  | record platform fields => exact record_isOk_iff
  | relate e => exact iff_of_eq (congrArg (· = true) onRows_isOk)
  | clear origin kind => exact iff_of_eq (congrArg (· = true) onRows_isOk)
  | logError platform message => exact iff_of_eq (congrArg (· = true) onRows_isOk)

end Database

/-! ## Stores in use -/

namespace RelationalStore

/-- Holds for a store that can be reached and has made its tables; some may be gone since. -/
structure InUse (s : RelationalStore) : Prop where
  reachable : s.obstacle = none
  prepared : s.hasSchema = true

section InUse

variable {s : RelationalStore} (h : s.InUse)

include h

theorem InUse.prepare_eq : s.prepare = (.ok (), { s with isOpen := true }) := by
  obtain ⟨database, obstacle, isOpen, hasSchema⟩ := s
  obtain ⟨hreachable, hprepared⟩ := h
  simp only at hreachable hprepared
  subst hreachable hprepared
  unfold prepare connect
  cases isOpen with
  | false => rfl
  | true => rfl

theorem InUse.execute_eq {α : Type} (statement : Database.Statement α) :
    s.execute statement = ((statement s.database).1,
      { s with isOpen := true, database := (statement s.database).2 }) := by
  unfold execute
  rw [h.prepare_eq]

theorem InUse.query_eq {α : Type} (q : Database → Except Fault α) :
    s.query q = (q s.database, { s with isOpen := true }) := by
  unfold query
  rw [h.prepare_eq]

theorem InUse.health_eq : (Backend.health s).2 = { s with isOpen := true } := by
  show (health s).2 = _
  unfold health
  rw [h.query_eq]
  cases Database.health s.database with
  | ok report => rfl
  | error e => rfl

/-- **Atomicity.** Whatever tables are missing and whatever is stored, an operation that fails
leaves all rows as they were; and a change fails exactly when the database lacks what it needs. -/
theorem rows_kept_of_fault (now : Millis) :
    (∀ op e, (perform now op s).1 = .error e → (perform now op s).2.database = s.database)
      ∧ ∀ c, (perform now (.change c) s).1.isOk = true ↔ c.Feasible s.database := by
  have hchange (c : Change) : Backend.change now c s = ((Database.change now c s.database).1,
      { s with isOpen := true, database := (Database.change now c s.database).2 }) :=
    h.execute_eq (Database.change now c)
  constructor
  · intro op e hfault
    cases op with
    | change c =>
        simp only [perform, Reply.map, hchange] at hfault ⊢
        cases hoc : (Database.change now c s.database).1 with
        | ok x =>
            rw [hoc] at hfault
            exact nomatch hfault
        | error e' => exact Database.change_error (Prod.ext hoc rfl)
    | asset id => exact congrArg (fun r => r.2.database) (h.query_eq (Database.asset? id))
    | search query filters =>
        exact congrArg (fun r => r.2.database) (h.query_eq (Database.search query filters))
    | ledger platform =>
        exact congrArg (fun r => r.2.database) (h.query_eq (Database.ledger? platform))
    | edges id => exact congrArg (fun r => r.2.database) (h.query_eq (Database.edgesOf id))
    | recentErrors platform limit =>
        exact congrArg (fun r => r.2.database) (h.query_eq (Database.recentErrors platform limit))
    | health => exact congrArg (fun s => s.database) h.health_eq
  · intro c
    simp only [perform, Reply.map, hchange]
    rw [Database.isOk_map, Database.change_isOk_iff]

end InUse

/-- A store whose table of assets is gone, and in whose ledger stands a text that is cut off. -/
def damagedStore : RelationalStore where
  database := {
    edges := some [⟨"a", "b", importKind⟩]
    ledger := some [⟨"p", "\x7b", 0, 1⟩] }
  hasSchema := true

/-- Removing fails when the edge is deleted already, and updating the ledger before it is written. -/
theorem rows_kept_of_fault_damagedStore :
    damagedStore.InUse
      ∧ (perform 0 (.change (.remove "a")) damagedStore).1 = .error (.noTable Database.assetTable)
      ∧ (perform 0 (.change (.remove "a")) damagedStore).2.database = damagedStore.database
      ∧ (perform 0 (.change (.record "p" [])) damagedStore).1 = .error .undecodable
      ∧ (perform 0 (.change (.record "p" [])) damagedStore).2.database = damagedStore.database := by
  have huse : damagedStore.InUse := ⟨rfl, rfl⟩
  obtain ⟨hkept, -⟩ := rows_kept_of_fault huse 0
  have hremove : (perform 0 (.change (.remove "a")) damagedStore).1
      = .error (.noTable Database.assetTable) := rfl
  have hrecord : (perform 0 (.change (.record "p" [])) damagedStore).1 = .error .undecodable := rfl
  exact ⟨huse, hremove, hkept _ _ hremove, hrecord, hkept _ _ hrecord⟩

end RelationalStore

end ContentGraph
