import ContentGraph.Proofs.Store.Paging

/-!
# Missing tables

Each operation uses some of the four tables, in an order (`Operation.tables`). On a database of
which any may be missing, it fails for want of a table exactly when it uses one that is missing, and
names the first (`answer_eq_failed_iff`). No operation takes a table away
(`has_answer`).
-/

namespace ContentGraph

open Store

/-! ## Tables -/

/-- The tables that a change uses, in the order in which it does. -/
def Store.Change.tables : Change → List String
  | .ingest _ => [Database.assetTable]
  | .remove _ => [Database.edgeTable, Database.assetTable]
  | .record _ _ => [Database.ledgerTable]
  | .relate _ => [Database.edgeTable]
  | .clear _ _ => [Database.edgeTable]
  | .logError _ _ => [Database.errorTable]

/-- The tables that an operation uses, in the order in which it does. -/
def Store.Operation.tables : Operation → List String
  | .change c => c.tables
  | .asset _ => [Database.assetTable]
  | .search _ _ => [Database.assetTable]
  | .ledger _ => [Database.ledgerTable]
  | .edges _ => [Database.edgeTable]
  | .recentErrors _ _ => [Database.errorTable]
  | .health => [Database.assetTable, Database.ledgerTable]

/-- What an operation yields that fails; a report on the health tells of the fault. -/
def Store.Operation.failed (e : Fault) : Operation → Except Fault Result
  | .health => .ok (.health (.disconnected e.message))
  | _ => .error e

namespace Database

/-- Holds when a table is there. -/
def has (d : Database) (name : String) : Bool :=
  if name = assetTable then d.assets.isSome
  else if name = edgeTable then d.edges.isSome
  else if name = ledgerTable then d.ledger.isSome
  else if name = errorTable then d.errors.isSome
  else false

/-- Holds when all four tables are there. -/
def HasAll (d : Database) : Prop :=
  ∀ name ∈ [assetTable, edgeTable, ledgerTable, errorTable], d.has name = true

instance (d : Database) : Decidable d.HasAll := inferInstanceAs (Decidable (∀ _ ∈ _, _))

/-- The first of some tables that is missing. -/
def missing? (names : List String) (d : Database) : Option String := names.find? fun n => !d.has n

/-- What an operation yields on a database, and what it leaves. -/
def answer (now : Millis) : Operation → Statement Result
  | .change c => fun d => ((change now c d).1.map fun _ => .done, (change now c d).2)
  | .asset id => fun d => ((asset? id d).map .asset, d)
  | .search query filters => fun d => ((search query filters d).map .page, d)
  | .ledger platform => fun d => ((ledger? platform d).map .ledger, d)
  | .edges id => fun d => ((edgesOf id d).map .edges, d)
  | .recentErrors platform limit => fun d => ((recentErrors platform limit d).map .errors, d)
  | .health => fun d =>
    match health d with
    | .ok report => (.ok (.health report), d)
    | .error e => (.ok (.health (.disconnected e.message)), d)

variable {d d' : Database} {α β : Type}

@[simp] theorem has_assetTable : d.has assetTable = d.assets.isSome := rfl

@[simp] theorem has_edgeTable : d.has edgeTable = d.edges.isSome := rfl

@[simp] theorem has_ledgerTable : d.has ledgerTable = d.ledger.isSome := rfl

@[simp] theorem has_errorTable : d.has errorTable = d.errors.isSome := rfl

theorem hasAll_createTables (d : Database) : d.createTables.HasAll := by
  unfold HasAll createTables
  simp

theorem has_createTables {name : String} (h : d.has name = true) :
    d.createTables.has name = true := by
  revert h
  unfold has createTables
  split_ifs <;> simp

/-- Where all four tables are there, an operation misses none. -/
theorem missing?_of_hasAll (h : d.HasAll) (op : Operation) : d.missing? op.tables = none := by
  have htables : op.tables ⊆ [assetTable, edgeTable, ledgerTable, errorTable] := by
    cases op with
    | change c => cases c <;> simp [Operation.tables, Change.tables]
    | _ => simp [Operation.tables]
  unfold missing?
  rw [List.find?_eq_none]
  intro name hname
  rw [h name (htables hname)]
  exact Bool.false_ne_true

/-! ## Answers that need tables -/

/-- Holds for answers that tell of no missing table. -/
def FindsTables (r : Except Fault α) : Prop := ∀ t, r ≠ .error (.noTable t)

theorem findsTables_ok (x : α) : FindsTables (.ok x) := by
  intro t heq
  cases heq

theorem FindsTables.map {r : Except Fault α} (h : FindsTables r) (f : α → β) :
    FindsTables (r.map f) := by
  cases r with
  | ok x => exact findsTables_ok (f x)
  | error e =>
      intro t heq
      obtain rfl := Except.error.inj heq
      exact h t rfl

theorem findsTables_of_hinges {P : Prop} {r : Except Fault α} (h : Hinges P r) : FindsTables r := by
  cases h with
  | given h x => exact findsTables_ok x
  | missing h =>
      intro t heq
      cases heq

/-- An answer that fails for the first of some tables that is missing, and not for want of one if
there is none. -/
inductive Needs (d : Database) (names : List String) : Except Fault α → Prop
  | missing {t : String} (h : d.missing? names = some t) : Needs d names (.error (.noTable t))
  | found {r : Except Fault α} (h : d.missing? names = none) (hr : FindsTables r) : Needs d names r

theorem Needs.map {names : List String} {r : Except Fault α} (h : Needs d names r) (f : α → β) :
    Needs d names (r.map f) := by
  cases h with
  | missing h => exact .missing h
  | found h hr => exact .found h (hr.map f)

theorem Needs.eq_error_iff {names : List String} {r : Except Fault α} (h : Needs d names r)
    {t : String} : r = .error (.noTable t) ↔ d.missing? names = some t := by
  cases h with
  | missing h => rw [h, Except.error.injEq, Fault.noTable.injEq, Option.some.injEq]
  | found h hr => exact iff_of_false (hr t) (by rw [h]; exact (Option.some_ne_none t).symm)

/-- What uses the rows of a table fails without it, and else for want of the tables that follow. -/
theorem needs_table {name : String} {names : List String} {table : Option (List β)}
    {r : Except Fault α} (hhas : d.has name = table.isSome)
    (hnone : table = none → r = .error (.noTable name))
    (hsome : ∀ rows, table = some rows → Needs d names r) : Needs d (name :: names) r := by
  cases table with
  | none =>
      rw [hnone rfl]
      refine .missing ?_
      unfold missing?
      rw [List.find?_cons_of_pos (by rw [hhas]; rfl)]
  | some rows =>
      have hrest : d.missing? (name :: names) = d.missing? names := by
        unfold missing?
        rw [List.find?_cons_of_neg (by rw [hhas]; exact Bool.false_ne_true)]
      cases hsome rows rfl with
      | missing h => exact .missing (hrest.trans h)
      | found h hr => exact .found (hrest.trans h) hr

/-! ## Queries -/

/-- A query reads the rows of a table first. -/
theorem needs_rowsOf {name : String} {names : List String} {table : Option (List β)}
    {f : List β → Except Fault α} (hhas : d.has name = table.isSome)
    (hf : ∀ rows, Needs d names (f rows)) : Needs d (name :: names) (rowsOf name table >>= f) := by
  refine needs_table hhas (fun hnone => ?_) fun rows hrows => ?_
  · rw [hnone]
    rfl
  · rw [hrows]
    exact hf rows

theorem hinges_ledgerRow (row : LedgerRow) : Hinges (row.fields?.isSome = true) row.decode := by
  unfold LedgerRow.decode
  cases row.fields? with
  | none => exact .missing Bool.false_ne_true
  | some fields => exact .given rfl _

theorem needs_asset? (id : String) : Needs d [assetTable] (d.asset? id) := by
  refine needs_rowsOf has_assetTable fun rows => .found rfl ?_
  cases rows.find? (·.id = id) with
  | none => exact findsTables_ok none
  | some row => exact findsTables_of_hinges (row.hinges_decode.bind_pure some)

theorem needs_search (query : String) (filters : Filters) :
    Needs d [assetTable] (d.search query filters) := by
  have hread (rows : List AssetRow) (f : List Asset → Page) :
      FindsTables (rows.mapM AssetRow.decode >>= fun items => pure (f items)) :=
    findsTables_of_hinges ((Hinges.mapM fun row _ => row.hinges_decode).bind_pure f)
  unfold search hits
  rw [bind_assoc]
  refine needs_rowsOf has_assetTable fun rows => .found rfl ?_
  rw [pure_bind]
  cases filters.effectiveLimit with
  | none => exact hread _ _
  | some limit => exact hread _ _

theorem needs_ledger? (platform : String) : Needs d [ledgerTable] (d.ledger? platform) := by
  refine needs_rowsOf has_ledgerTable fun rows => .found rfl ?_
  cases rows.find? (·.platform = platform) with
  | none => exact findsTables_ok none
  | some row => exact findsTables_of_hinges ((hinges_ledgerRow row).bind_pure some)

theorem needs_edgesOf (id : String) : Needs d [edgeTable] (d.edgesOf id) :=
  needs_rowsOf has_edgeTable fun _ => .found rfl (findsTables_ok _)

theorem needs_recentErrors (platform : String) (limit : Nat) :
    Needs d [errorTable] (d.recentErrors platform limit) :=
  needs_rowsOf has_errorTable fun _ => .found rfl (findsTables_ok _)

theorem needs_health : Needs d [assetTable, ledgerTable] d.health :=
  needs_rowsOf has_assetTable fun _ =>
    needs_rowsOf has_ledgerTable fun _ => .found rfl (findsTables_ok _)

/-! ## Changes -/

theorem needs_onRows {name : String} {table : Database → Option (List β)}
    {put : List β → Database → Database} {f : List β → List β}
    (hhas : d.has name = (table d).isSome) : Needs d [name] (onRows name table put f d).1 := by
  refine needs_table hhas (fun hnone => ?_) fun rows hrows => ?_
  · unfold onRows
    rw [hnone]
  · unfold onRows
    rw [hrows]
    exact .found rfl (findsTables_ok _)

/-- Removing takes away the edges first and then the row. -/
theorem needs_remove (id : String) : Needs d [edgeTable, assetTable] (remove id d).1 := by
  refine needs_table has_edgeTable (fun hnone => ?_) fun edges hedges => ?_
  · simp only [remove, transaction, andThen, deleteEdges, onEdges, onRows, hnone]
  · refine needs_table has_assetTable (fun hnone => ?_) fun rows hrows => ?_
    · simp only [remove, transaction, andThen, deleteEdges, onEdges_eq hedges, deleteAsset,
        onAssets, onRows, hnone]
    · rw [remove_eq hrows hedges]
      exact .found rfl (findsTables_ok _)

theorem needs_record (now : Millis) (platform : String) (fields : Fields) :
    Needs d [ledgerTable] (record now platform fields d).1 := by
  refine needs_table has_ledgerTable (fun hnone => ?_) fun rows hrows => ?_
  · have hselect : (selectFields platform d).1 = .error (.noTable ledgerTable) := by
      unfold selectFields
      rw [hnone]
      rfl
    rw [record_eq_error hselect]
  · rw [record_fst hrows]
    refine .found rfl (FindsTables.map ?_ _)
    unfold RelationalStore.readLedger
    cases rows.find? (·.platform = platform) with
    | none => exact findsTables_ok none
    | some row => exact findsTables_of_hinges ((hinges_ledgerRow row).map some)

theorem needs_change (now : Millis) (c : Change) : Needs d c.tables (change now c d).1 := by
  cases c with
  | ingest a => exact needs_onRows has_assetTable
  | remove id => exact needs_remove id
  | record platform fields => exact needs_record now platform fields
  | relate e => exact needs_onRows has_edgeTable
  | clear origin kind => exact needs_onRows has_edgeTable
  | logError platform message => exact needs_onRows has_errorTable

/-! ## Operations -/

/-- A report on the health is made, or a table is missing. -/
theorem health_cases (d : Database) :
    (∃ assets recent, d.health = .ok (.connected engine assets recent))
      ∨ ∃ t, d.health = .error (.noTable t) := by
  unfold health
  cases d.assets with
  | none => exact .inr ⟨_, rfl⟩
  | some rows =>
      cases d.ledger with
      | none => exact .inr ⟨_, rfl⟩
      | some entries => exact .inl ⟨_, _, rfl⟩

/-- **Missing tables.** An operation fails for want of a table exactly when it uses one that is
missing, and names the first. -/
theorem answer_eq_failed_iff {now : Millis} {op : Operation} {t : String} :
    (answer now op d).1 = op.failed (.noTable t) ↔ d.missing? op.tables = some t := by
  cases op with
  | change c => exact ((needs_change now c).map _).eq_error_iff
  | asset id => exact ((needs_asset? id).map _).eq_error_iff
  | search query filters => exact ((needs_search query filters).map _).eq_error_iff
  | ledger platform => exact ((needs_ledger? platform).map _).eq_error_iff
  | edges id => exact ((needs_edgesOf id).map _).eq_error_iff
  | recentErrors platform limit => exact ((needs_recentErrors platform limit).map _).eq_error_iff
  | health =>
      refine Iff.trans ?_ needs_health.eq_error_iff
      simp only [answer, Operation.failed]
      obtain ⟨assets, recent, hmade⟩ | ⟨t', hmissing⟩ := health_cases d
      · rw [hmade]
        exact iff_of_false (fun h => by cases h) (fun h => by cases h)
      · rw [hmissing]
        simp only [Except.ok.injEq, Result.health.injEq, Health.disconnected.injEq,
          Except.error.injEq, Fault.noTable.injEq]
        -- the text tells the table
        exact String.append_right_inj _

/-- A change takes no table away. -/
theorem has_change {now : Millis} {c : Change} {name : String} (h : d.has name = true) :
    (change now c d).2.has name = true := by
  rcases hchange : change now c d with ⟨e | ⟨⟩, d'⟩
  · rwa [change_error hchange]
  · revert h
    cases makes_of_change hchange <;> (unfold has; split_ifs <;> simp_all)

/-- No operation takes a table away. -/
theorem has_answer {now : Millis} {op : Operation} {name : String} (h : d.has name = true) :
    (answer now op d).2.has name = true := by
  cases op with
  | change c => exact has_change h
  | health =>
      simp only [answer]
      split
      · exact h
      · exact h
  | _ => exact h

end Database

end ContentGraph
