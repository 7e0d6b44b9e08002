import ContentGraph.Command.Execution
import ContentGraph.Proofs.Http.Failure
import ContentGraph.Proofs.Store.Statement
import Mathlib.Tactic.Push

/-!
# Removing assets

The store takes an asset away whatever is written in its row. A request to do so, and the command,
ask for the asset first, to tell whether there was one; so they are refused when its metadata
cannot be read, and the row and its edges stay. Main statement: on a database of four tables a
removal that is asked for is made exactly when the row can be read, if there is one, and touches
nothing else (`removed_iff_legible`).
-/

namespace ContentGraph

open Store

namespace Database

/-- Holds when no table is missing. -/
def IsWhole (d : Database) : Prop := d.createTables = d

/-- The row of an id. -/
def row? (d : Database) (id : String) : Option AssetRow := (d.assets.getD []).find? (·.id = id)

/-- Holds when the metadata in the row of an id can be read; an id without a row has none that
could not. -/
def LegibleAt (d : Database) (id : String) : Prop :=
  ∀ row, d.row? id = some row → (Metadata.ofBlob? row.metadata).isSome

/-- The database without the row of an id and the edges with that id at either end. -/
def without (d : Database) (id : String) : Database where
  assets := d.assets.map (·.filter fun row => row.id ≠ id)
  edges := d.edges.map (·.filter fun e => e.origin ≠ id ∧ e.target ≠ id)
  ledger := d.ledger
  errors := d.errors

variable {d : Database}

theorem IsWhole.exists_tables (h : d.IsWhole) :
    ∃ rows edges, d.assets = some rows ∧ d.edges = some edges := by
  refine ⟨d.assets.getD [], d.edges.getD [], ?_, ?_⟩
  · exact (congrArg assets h).symm
  · exact (congrArg edges h).symm

theorem remove_of_isWhole (h : d.IsWhole) (id : String) : remove id d = (.ok (), d.without id) := by
  obtain ⟨rows, edges, hrows, hedges⟩ := h.exists_tables
  rw [remove_eq hrows hedges]
  simp [without, hrows, hedges, Edge.touches, beq_eq_decide]

theorem asset?_of_isWhole (h : d.IsWhole) (id : String) :
    d.asset? id = match d.row? id with
      | some row => row.decode.map some
      | none => .ok none := by
  obtain ⟨rows, -, hrows, -⟩ := h.exists_tables
  have hrow : d.row? id = rows.find? (·.id = id) := by
    unfold row?
    rw [hrows]
    rfl
  cases hfind : d.row? id with
  | none => exact asset?_of_none hrows (hrow ▸ hfind)
  | some row => exact asset?_of_some hrows (hrow ▸ hfind)

theorem asset?_of_legible (h : d.IsWhole) {id : String} (hlegible : d.LegibleAt id) :
    ∃ a, d.asset? id = .ok a ∧ a.isSome = (d.row? id).isSome := by
  rw [asset?_of_isWhole h]
  cases hrow : d.row? id with
  | none => exact ⟨none, rfl, rfl⟩
  | some row =>
      obtain ⟨metadata, hread⟩ := Option.isSome_iff_exists.1 (hlegible row hrow)
      have hdecode : row.decode
          = .ok ⟨row.id, row.title, row.content, row.shownType, row.source, metadata⟩ := by
        unfold AssetRow.decode
        rw [hread]
      exact ⟨some _, congrArg (Except.map some) hdecode, rfl⟩

theorem asset?_of_illegible (h : d.IsWhole) {id : String} (hillegible : ¬d.LegibleAt id) :
    d.asset? id = .error .undecodable := by
  unfold LegibleAt at hillegible
  push Not at hillegible
  obtain ⟨row, hrow, hread⟩ := hillegible
  have hdecode : row.decode = .error .undecodable := by
    unfold AssetRow.decode
    rw [Option.not_isSome_iff_eq_none.1 hread]
  rw [asset?_of_isWhole h, hrow]
  exact congrArg (Except.map some) hdecode

end Database

/-! ## Asking and removing -/

namespace RelationalStore

/-- The store with its connection made. -/
def connected (s : RelationalStore) : RelationalStore := ⟨s.database, none, true, true⟩

variable {s : RelationalStore} (hreach : s.obstacle = none) (hwhole : s.database.IsWhole)

include hreach hwhole

theorem prepare_of_isWhole : s.prepare = (.ok (), s.connected) := by
  rw [prepare_eq hreach fun _ => hwhole, show s.database.createTables = s.database from hwhole]
  rfl

theorem remove_of_isWhole (now : Millis) (id : String) :
    Backend.change now (.remove id) s
      = (.ok (), { s.connected with database := s.database.without id }) := by
  show s.execute (Database.remove id) = _
  unfold execute
  rw [prepare_of_isWhole hreach hwhole]
  simp only [connected, Database.remove_of_isWhole hwhole]

theorem asset?_of_isWhole (id : String) :
    Backend.asset? id s = (s.database.asset? id, s.connected) := by
  show s.query (Database.asset? id) = _
  unfold query
  rw [prepare_of_isWhole hreach hwhole]
  rfl

theorem asset?_of_legible {id : String} (h : s.database.LegibleAt id) :
    ∃ a, Backend.asset? id s = (.ok a, s.connected)
      ∧ a.isSome = (s.database.row? id).isSome := by
  obtain ⟨a, hasset, hsome⟩ := Database.asset?_of_legible hwhole h
  refine ⟨a, ?_, hsome⟩
  rw [asset?_of_isWhole hreach hwhole, hasset]

theorem asset?_of_illegible {id : String} (h : ¬s.database.LegibleAt id) :
    Backend.asset? id s = (.error .undecodable, s.connected) := by
  rw [asset?_of_isWhole hreach hwhole, Database.asset?_of_illegible hwhole h]

end RelationalStore

/-! ## Requests -/

namespace Http

/-- A request to delete what stands under a name in the path. -/
structure Deletes (req : Request) (id : String) : Prop where
  method : req.method = "DELETE"
  target : ∃ segment, Route.ofTarget? req.target = some (.asset segment)
    ∧ segmentText? segment = some id

theorem handle_of_deletes {σ : Type} [Backend σ] {req : Request} {id : String}
    (h : Deletes req id) (now : Millis) (freshId : String) (v : Service) (s : σ) :
    v.handle now freshId req s
      = ((answerRemoval now id s).1.adding anyOrigin, v, (answerRemoval now id s).2) := by
  obtain ⟨hmethod, segment, hroute, hname⟩ := h
  unfold Service.handle Service.answer withName
  simp [hmethod, hroute, hname, Route.methods]

/-- The answer to a removal that is made, which tells whether there was an asset. -/
def removalResponse (id : String) (removed : Bool) : Response :=
  .ofJson 200 (.ofFields [("id", .string id), ("removed", .bool removed)])

section Removal

variable {s : RelationalStore} (hreach : s.obstacle = none) (hwhole : s.database.IsWhole)

include hreach hwhole

theorem answerRemoval_of_legible {id : String} (h : s.database.LegibleAt id) (now : Millis) :
    answerRemoval now id s = (removalResponse id (s.database.row? id).isSome,
      { s.connected with database := s.database.without id }) := by
  obtain ⟨a, hasset, hsome⟩ := RelationalStore.asset?_of_legible hreach hwhole h
  have hremove := RelationalStore.remove_of_isWhole (s := s.connected) rfl hwhole now id
  simp only [answerRemoval, hasset, hremove, hsome]
  rfl

theorem answerRemoval_of_illegible {id : String} (h : ¬s.database.LegibleAt id) (now : Millis) :
    answerRemoval now id s = (.storeUnavailable Fault.undecodable.message, s.connected) := by
  simp only [answerRemoval, RelationalStore.asset?_of_illegible hreach hwhole h]

end Removal

end Http

/-! ## Commands -/

namespace Command

/-- What is printed of a removal that is made. -/
def removalLine (id : String) (removed : Bool) : String :=
  (if removed then "removed " else "no asset with id ") ++ id

variable {s : RelationalStore} (hreach : s.obstacle = none) (hwhole : s.database.IsWhole)

include hreach hwhole

theorem removeAsset_of_legible {id : String} (h : s.database.LegibleAt id) (now : Millis) :
    removeAsset now id s = ({ lines := [removalLine id (s.database.row? id).isSome] },
      { s.connected with database := s.database.without id }) := by
  obtain ⟨a, hasset, hsome⟩ := RelationalStore.asset?_of_legible hreach hwhole h
  have hremove := RelationalStore.remove_of_isWhole (s := s.connected) rfl hwhole now id
  simp only [removeAsset, hasset, hremove, hsome]
  rfl

theorem removeAsset_of_illegible {id : String} (h : ¬s.database.LegibleAt id) (now : Millis) :
    removeAsset now id s = (.failure Fault.undecodable.message, s.connected) := by
  simp only [removeAsset, RelationalStore.asset?_of_illegible hreach hwhole h]

end Command

/-! ## Removals -/

/-- How a removal ends that asks for the asset first: it is made, or refused. -/
structure EndsRemoval (id : String) (d d' : Database) (made refused : Prop) : Prop where
  made : d.LegibleAt id → made ∧ d' = d.without id
  refused : ¬d.LegibleAt id → refused ∧ d' = d

/-- **Removal.** On a database of four tables the store takes away the row of an id and the edges
that touch it, and nothing else, whatever the row holds. A request to delete the asset and the
command do so exactly when the row can be read, if there is one; otherwise they fail and leave
everything. -/
theorem removed_iff_legible {s : RelationalStore} (hreach : s.obstacle = none)
    (hwhole : s.database.IsWhole) (id : String) :
    (∀ now, (Backend.change now (.remove id) s).1 = .ok ()
        ∧ (Backend.change now (.remove id) s).2.database = s.database.without id)
      ∧ (∀ req, Http.Deletes req id → ∀ now freshId (v : Http.Service),
        let answer := v.handle now freshId req s
        answer.2.1 = v ∧ EndsRemoval id s.database answer.2.2.database
          (answer.1 = (Http.removalResponse id (s.database.row? id).isSome).adding Http.anyOrigin)
          (answer.1 = (Http.Response.storeUnavailable Fault.undecodable.message).adding
            Http.anyOrigin))
      ∧ ∀ settings tree time,
        let output := Command.execute settings tree time (.remove id) s
        EndsRemoval id s.database output.2.database
          (output.1 = { lines := [Command.removalLine id (s.database.row? id).isSome] })
          (output.1 = .failure Fault.undecodable.message) := by
  refine ⟨fun now => ?_, ?_, ?_⟩
  · rw [RelationalStore.remove_of_isWhole hreach hwhole]
    exact ⟨rfl, rfl⟩
  · intro req hreq now freshId v
    simp only [Http.handle_of_deletes hreq]
    refine ⟨trivial, fun hlegible => ?_, fun hillegible => ?_⟩
    · rw [Http.answerRemoval_of_legible hreach hwhole hlegible]
      exact ⟨rfl, rfl⟩
    · rw [Http.answerRemoval_of_illegible hreach hwhole hillegible]
      exact ⟨rfl, rfl⟩
  · intro settings tree time
    show EndsRemoval id s.database (Command.removeAsset (time 0) id s).2.database
      ((Command.removeAsset (time 0) id s).1 = _) ((Command.removeAsset (time 0) id s).1 = _)
    refine ⟨fun hlegible => ?_, fun hillegible => ?_⟩
    · rw [Command.removeAsset_of_legible hreach hwhole hlegible]
      exact ⟨rfl, rfl⟩
    · rw [Command.removeAsset_of_illegible hreach hwhole hillegible]
      exact ⟨rfl, rfl⟩

/-- A database of two assets and an edge between them, of which one has a text for metadata that
is no JSON. -/
def smudgedStore : RelationalStore where
  database := {
    assets := some [⟨"a", "A", "text", "asset", "s", "smudge", 0, 1⟩,
      ⟨"b", "B", "text", "asset", "s", "\x7b\x7d", 0, 2⟩]
    edges := some [⟨"a", "b", importKind⟩]
    ledger := some []
    errors := some [] }

/-- The request to delete an asset of a plain name. -/
def deletion (name : String) : Http.Request := ⟨"DELETE", "/assets/" ++ name, none, []⟩

theorem deletes_deletion_a : Http.Deletes (deletion "a") "a" :=
  ⟨rfl, "a", by decide +kernel, by decide +kernel⟩

theorem deletes_deletion_b : Http.Deletes (deletion "b") "b" :=
  ⟨rfl, "b", by decide +kernel, by decide +kernel⟩

theorem legibleAt_smudgedStore : smudgedStore.database.LegibleAt "b" := by
  intro row hrow
  obtain rfl := Option.some.inj hrow
  decide +kernel

theorem not_legibleAt_smudgedStore : ¬smudgedStore.database.LegibleAt "a" := by
  intro h
  have hread := h ⟨"a", "A", "text", "asset", "s", "smudge", 0, 1⟩ rfl
  revert hread
  decide +kernel

/-- The asset that can be read goes together with the edge, the other one stays. -/
theorem removed_iff_legible_smudgedStore :
    smudgedStore.obstacle = none ∧ smudgedStore.database.IsWhole
      ∧ (Http.bareService.handle 0 "run" (deletion "b") smudgedStore).1
        = (Http.removalResponse "b" true).adding Http.anyOrigin
      ∧ (Http.bareService.handle 0 "run" (deletion "b") smudgedStore).2.2.database
        = smudgedStore.database.without "b"
      ∧ (Http.bareService.handle 0 "run" (deletion "a") smudgedStore).2.2.database
        = smudgedStore.database := by
  have hwhole : smudgedStore.database.IsWhole := rfl
  obtain ⟨-, hrequest, -⟩ := removed_iff_legible (s := smudgedStore) rfl hwhole "b"
  obtain ⟨hresponse, hleft⟩ :=
    (hrequest _ deletes_deletion_b 0 "run" Http.bareService).2.made legibleAt_smudgedStore
  obtain ⟨-, hrefused, -⟩ := removed_iff_legible (s := smudgedStore) rfl hwhole "a"
  obtain ⟨-, hkept⟩ :=
    (hrefused _ deletes_deletion_a 0 "run" Http.bareService).2.refused not_legibleAt_smudgedStore
  exact ⟨rfl, hwhole, hresponse, hleft, hkept⟩

/-- The request to delete the asset that cannot be read fails, and so does the command. -/
theorem smudgedAsset_stays :
    (¬∀ (s : RelationalStore) (id : String) (req : Http.Request) (now : Millis) (freshId : String)
        (v : Http.Service), s.obstacle = none → s.database.IsWhole → Http.Deletes req id →
        (v.handle now freshId req s).1.status = 200
          ∧ (v.handle now freshId req s).2.2.database = s.database.without id)
      ∧ ¬∀ (s : RelationalStore) (id : String) (settings : Settings) (tree : FileTree)
        (time : Nat → Millis), s.obstacle = none → s.database.IsWhole →
        (Command.execute settings tree time (.remove id) s).1.fault = none
          ∧ (Command.execute settings tree time (.remove id) s).2.database
            = s.database.without id := by
  have hwhole : smudgedStore.database.IsWhole := rfl
  constructor
  · intro h
    obtain ⟨hstatus, -⟩ := h smudgedStore "a" _ 0 "run" Http.bareService rfl hwhole deletes_deletion_a
    rw [Http.handle_of_deletes deletes_deletion_a,
      Http.answerRemoval_of_illegible rfl hwhole not_legibleAt_smudgedStore] at hstatus
    exact absurd hstatus (by decide)
  · intro h
    obtain ⟨hfault, -⟩ := h smudgedStore "a" Http.bareService.settings {} (fun _ => 0) rfl hwhole
    change (Command.removeAsset 0 "a" smudgedStore).1.fault = none at hfault
    rw [Command.removeAsset_of_illegible rfl hwhole not_legibleAt_smudgedStore] at hfault
    exact nomatch hfault

end ContentGraph
