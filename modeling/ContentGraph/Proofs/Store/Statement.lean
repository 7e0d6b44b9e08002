import ContentGraph.Store.Database

/-!
# What statements do to tables

One equation for each statement on a database that has the tables it needs: what it yields and
what it leaves. A statement of two parts keeps nothing of the first when the second fails. On any
database, all that a change can do is told once (`makes_of_change`, `change_error`).
-/

namespace ContentGraph.Database

open Store

variable {d : Database}

theorem onAssets_eq {rows : List AssetRow} (h : d.assets = some rows)
    (f : List AssetRow → List AssetRow) :
    onAssets f d = (.ok (), { d with assets := some (f rows) }) := by
  simp only [onAssets, onRows, h]

theorem onEdges_eq {edges : List Edge} (h : d.edges = some edges) (f : List Edge → List Edge) :
    onEdges f d = (.ok (), { d with edges := some (f edges) }) := by
  simp only [onEdges, onRows, h]

theorem onLedger_eq {rows : List LedgerRow} (h : d.ledger = some rows)
    (f : List LedgerRow → List LedgerRow) :
    onLedger f d = (.ok (), { d with ledger := some (f rows) }) := by
  simp only [onLedger, onRows, h]

theorem onErrors_eq {errors : List LoggedError} (h : d.errors = some errors)
    (f : List LoggedError → List LoggedError) :
    onErrors f d = (.ok (), { d with errors := some (f errors) }) := by
  simp only [onErrors, onRows, h]

/-- A table that is there can be read. -/
@[simp] theorem rowsOf_some {α : Type} (name : String) (rows : List α) :
    rowsOf name (some rows) = .ok rows := rfl

/-- Removing takes away the edges that touch the asset and its row. -/
theorem remove_eq {rows : List AssetRow} {edges : List Edge} (hrows : d.assets = some rows)
    (hedges : d.edges = some edges) (id : String) :
    remove id d = (.ok (), { d with
      assets := some (rows.filter (·.id ≠ id))
      edges := some (edges.filter fun e => !e.touches id) }) := by
  have hsnd : ({ d with edges := some (edges.filter fun e => !e.touches id) } : Database).assets
      = some rows := hrows
  simp only [remove, transaction, andThen, deleteEdges, deleteAsset, onEdges_eq hedges,
    onAssets_eq hsnd]

/-- The old fields of a platform are those of its row; without a row there are none. -/
theorem selectFields_eq {rows : List LedgerRow} (h : d.ledger = some rows) (platform : String) :
    (selectFields platform d).1 = match rows.find? (·.platform = platform) with
      | none => .ok []
      | some row => row.decode.map LedgerEntry.fields := by
  simp only [selectFields, h]
  show (match rows.find? (·.platform = platform) with
    | none => Except.ok []
    | some row => row.decode >>= fun e => pure e.fields) = _
  cases rows.find? (·.platform = platform) with
  | none => rfl
  | some row => cases row.decode <;> rfl

/-- Recording writes the old fields with the new ones set, if the old ones can be read. -/
theorem record_eq {rows : List LedgerRow} (h : d.ledger = some rows) {platform : String}
    {old : Fields} (hold : (selectFields platform d).1 = .ok old) (now : Millis)
    (fields : Fields) :
    record now platform fields d = (.ok (), { d with
      ledger := some (rows.filter (·.platform ≠ platform) ++
        [⟨platform, (Json.object (LedgerEntry.merge old fields)).render, now,
          nextRevision (rows.map (·.revision))⟩]) }) := by
  have hselect : selectFields platform d = (.ok old, d) := Prod.ext hold rfl
  simp only [record, transaction, andThen, hselect, upsertLedger, onLedger_eq h]

/-! ## Queries for one row -/

/-- An id without a row has no asset. -/
theorem asset?_of_none {rows : List AssetRow} (h : d.assets = some rows) {id : String}
    (hid : rows.find? (·.id = id) = none) : d.asset? id = .ok none := by
  unfold asset?
  rw [h, rowsOf_some]
  simp only [bind, Except.bind, hid]
  rfl

/-- The asset of an id is read from its row. -/
theorem asset?_of_some {rows : List AssetRow} (h : d.assets = some rows) {id : String}
    {row : AssetRow} (hid : rows.find? (·.id = id) = some row) :
    d.asset? id = row.decode.map some := by
  unfold asset?
  rw [h, rowsOf_some]
  simp only [bind, Except.bind, hid]
  cases row.decode <;> rfl

/-- A platform without a row has no ledger. -/
theorem ledger?_of_none {rows : List LedgerRow} (h : d.ledger = some rows) {platform : String}
    (hp : rows.find? (·.platform = platform) = none) : d.ledger? platform = .ok none := by
  unfold ledger?
  rw [h, rowsOf_some]
  simp only [bind, Except.bind, hp]
  rfl

/-- The ledger of a platform is read from its row. -/
theorem ledger?_of_some {rows : List LedgerRow} (h : d.ledger = some rows) {platform : String}
    {row : LedgerRow} (hp : rows.find? (·.platform = platform) = some row) :
    d.ledger? platform = row.decode.map some := by
  unfold ledger?
  rw [h, rowsOf_some]
  simp only [bind, Except.bind, hp]
  cases row.decode <;> rfl

/-! ## Statements on any database -/

variable {d' : Database}

/-- A change of rows that succeeds finds its table, and one that fails leaves all as it was. -/
theorem onRows_eq {α : Type} {name : String} {table : Database → Option (List α)}
    {put : List α → Database → Database} {f : List α → List α} {r : Except Fault Unit}
    (h : onRows name table put f d = (r, d')) :
    (∃ rows, table d = some rows ∧ r = .ok () ∧ d' = put (f rows) d)
      ∨ ∃ e, r = .error e ∧ d' = d := by
  unfold onRows at h
  cases hrows : table d with
  | some rows =>
      rw [hrows] at h
      obtain ⟨rfl, rfl⟩ := Prod.mk.inj h
      exact .inl ⟨rows, rfl, rfl, rfl⟩
  | none =>
      rw [hrows] at h
      obtain ⟨rfl, rfl⟩ := Prod.mk.inj h
      exact .inr ⟨_, rfl, rfl⟩

/-- A transaction that fails leaves all as it was. -/
theorem transaction_error {α : Type} {body : Statement α} {e : Fault}
    (h : transaction body d = (.error e, d')) : d' = d := by
  unfold transaction at h
  rcases hbody : body d with ⟨_ | _, _⟩
  · rw [hbody] at h
    exact (Prod.mk.inj h).2.symm
  · rw [hbody] at h
    exact nomatch (Prod.mk.inj h).1

/-- A transaction that succeeds does what its body does. -/
theorem transaction_ok {α : Type} {body : Statement α} {x : α}
    (h : transaction body d = (.ok x, d')) : body d = (.ok x, d') := by
  unfold transaction at h
  rcases hbody : body d with ⟨_ | _, _⟩
  · rw [hbody] at h
    exact nomatch (Prod.mk.inj h).1
  · rw [hbody] at h
    exact h

/-- Statements that succeed one after another. -/
theorem andThen_ok {α β : Type} {first : Statement α} {next : α → Statement β} {y : β}
    (h : andThen first next d = (.ok y, d')) :
    ∃ x d₁, first d = (.ok x, d₁) ∧ next x d₁ = (.ok y, d') := by
  unfold andThen at h
  rcases hfirst : first d with ⟨_ | x, d₁⟩
  · rw [hfirst] at h
    exact nomatch (Prod.mk.inj h).1
  · rw [hfirst] at h
    exact ⟨x, d₁, rfl, h⟩

/-- Removing that succeeds takes away the edges that touch the asset and its row. -/
theorem remove_ok {id : String} (h : remove id d = (.ok (), d')) :
    ∃ rows edges, d.assets = some rows ∧ d.edges = some edges ∧ d' = { d with
      assets := some (rows.filter (·.id ≠ id))
      edges := some (edges.filter fun e => !e.touches id) } := by
  obtain ⟨⟨⟩, d₁, hedges, hasset⟩ := andThen_ok (transaction_ok h)
  unfold deleteEdges onEdges at hedges
  unfold deleteAsset onAssets at hasset
  obtain ⟨edges, hd, -, rfl⟩ | ⟨e, he, -⟩ := onRows_eq hedges
  · obtain ⟨rows, hd₁, -, rfl⟩ | ⟨e, he, -⟩ := onRows_eq hasset
    · exact ⟨rows, edges, hd₁, hd, rfl⟩
    · exact nomatch he
  · exact nomatch he

/-- Recording that succeeds reads the old fields, and writes them with the new ones set. -/
theorem record_ok {now : Millis} {platform : String} {fields : Fields}
    (h : record now platform fields d = (.ok (), d')) :
    ∃ rows old, d.ledger = some rows ∧ (selectFields platform d).1 = .ok old
      ∧ d' = { d with ledger := some (rows.filter (·.platform ≠ platform) ++
        [⟨platform, (Json.object (LedgerEntry.merge old fields)).render, now,
          nextRevision (rows.map (·.revision))⟩]) } := by
  obtain ⟨old, d₁, hselect, hwrite⟩ := andThen_ok (transaction_ok h)
  obtain rfl : d = d₁ := (Prod.mk.inj hselect).2
  unfold upsertLedger onLedger at hwrite
  obtain ⟨rows, hrows, -, rfl⟩ | ⟨e, he, -⟩ := onRows_eq hwrite
  · exact ⟨rows, old, hrows, congrArg Prod.fst hselect, rfl⟩
  · exact nomatch he

/-- **Atomicity.** A change that fails leaves the database as it was. -/
theorem change_error {now : Millis} {c : Change} {e : Fault}
    (h : change now c d = (.error e, d')) : d' = d := by
  have onRows_error {α : Type} {name : String} {table : Database → Option (List α)}
      {put : List α → Database → Database} {f : List α → List α}
      (h : onRows name table put f d = (.error e, d')) : d' = d := by
    obtain ⟨_, _, he, _⟩ | ⟨_, _, hd⟩ := onRows_eq h
    · exact nomatch he
    · exact hd
  cases c with
  | ingest a =>
      unfold change ingest onAssets at h
      exact onRows_error h
  | remove id => exact transaction_error h
  | record platform fields => exact transaction_error h
  | relate edge =>
      unfold change relate onEdges at h
      exact onRows_error h
  | clear origin kind =>
      unfold change clear onEdges at h
      exact onRows_error h
  | logError platform message =>
      unfold change logError onErrors at h
      exact onRows_error h

/-- What a change leaves that is made; the tables that it is about are there. -/
inductive Makes (now : Millis) (d : Database) : Change → Database → Prop
  | ingest {a rows} (hrows : d.assets = some rows) : Makes now d (.ingest a) { d with
      assets := some (rows.filter (·.id ≠ a.id)
        ++ [.ofAsset now (nextRevision (rows.map (·.revision))) a]) }
  | remove {id rows edges} (hrows : d.assets = some rows) (hedges : d.edges = some edges) :
      Makes now d (.remove id) { d with
        assets := some (rows.filter (·.id ≠ id))
        edges := some (edges.filter fun e => !e.touches id) }
  | record {platform fields rows} :
      Makes now d (.record platform fields) { d with ledger := some rows }
  | relate {e edges} (hedges : d.edges = some edges) : Makes now d (.relate e) { d with
      edges := some (if e ∈ edges then edges else edges ++ [e]) }
  | clear {origin kind edges} (hedges : d.edges = some edges) :
      Makes now d (.clear origin kind) { d with
        edges := some (edges.filter fun e => !(e.origin == origin && e.kind == kind)) }
  | logError {platform message errors} (herrors : d.errors = some errors) :
      Makes now d (.logError platform message) { d with
        errors := some (errors ++ [⟨platform, message, now⟩]) }

/-- **Statements.** All that a change can do that is made. -/
theorem makes_of_change {now : Millis} {c : Change} (h : change now c d = (.ok (), d')) :
    Makes now d c d' := by
  cases c with
  | ingest a =>
      unfold change ingest onAssets at h
      obtain ⟨rows, hrows, -, rfl⟩ | ⟨e, he, -⟩ := onRows_eq h
      · exact .ingest hrows
      · exact nomatch he
  | remove id =>
      obtain ⟨rows, edges, hrows, hedges, rfl⟩ := remove_ok h
      exact .remove hrows hedges
  | record platform fields =>
      obtain ⟨rows, old, -, -, rfl⟩ := record_ok h
      exact .record
  | relate e =>
      unfold change relate onEdges at h
      obtain ⟨edges, hedges, -, rfl⟩ | ⟨e, he, -⟩ := onRows_eq h
      · exact .relate hedges
      · exact nomatch he
  | clear origin kind =>
      unfold change clear onEdges at h
      obtain ⟨edges, hedges, -, rfl⟩ | ⟨e, he, -⟩ := onRows_eq h
      · exact .clear hedges
      · exact nomatch he
  | logError platform message =>
      unfold change logError onErrors at h
      obtain ⟨errors, herrors, -, rfl⟩ | ⟨e, he, -⟩ := onRows_eq h
      · exact .logError herrors
      · exact nomatch he

end ContentGraph.Database
