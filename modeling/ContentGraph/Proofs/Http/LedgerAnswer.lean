import ContentGraph.Proofs.Asset.Fields
import ContentGraph.Proofs.Http.Failure
import ContentGraph.Proofs.Store.LedgerTold

/-!
# Answers on ledgers

A question for the ledger of a platform is answered with the fields that the ledger keeps, between the
platform, the time of the last update and the time of the response. Main statement: behind every
history the answer carries every field with the value that was given last (`ledgerAnswer_behind`). The
names of the platform and of the last update are kept from being given, that of the time of the
response is not: a field with that name makes it stand twice, and a reader who takes the last one does
not see the field. Nor is the mark of a platform that was never updated kept from being given
(`ledgerAnswer_unfaithful`).
-/

namespace ContentGraph.Http

open Store (Backend Change Event Fault)

/-! ## Members -/

/-- The mark of a platform that was never updated. -/
def notRun : String × Json := ("status", .string "not_run")

/-- How an answer tells of the ledger of a platform, where `same` tells how a value is told. -/
structure TellsLedger (same : Json → Json → Prop) (L : List (Millis × Change)) (platform : String)
    (now : Millis) (members : List (String × Json)) : Prop where
  /-- A platform that was never updated is marked. -/
  unrun : lastUpdate? platform L = none →
    members = [("platform", .string platform), notRun, ("timestamp", .string now.iso)]
  /-- Of another one the fields are told that the ledger keeps, with the time of the last update. -/
  run : ∀ t, lastUpdate? platform L = some t → ∃ fields : Fields, fields.Sorted
    ∧ (∀ key, Option.Rel same (keptField? platform key L) (fields.get? key))
    ∧ members = ("platform", .string platform) :: fields
      ++ [("updatedAt", .string t.iso), ("timestamp", .string now.iso)]
  /-- What the ledger keeps is a member. -/
  carried : ∀ key v, keptField? platform key L = some v → ∃ w, same v w ∧ (key, w) ∈ members
  /-- No name stands twice, unless a field is named like the time of the response. -/
  nodup_iff : (members.map (·.1)).Nodup ↔ keptField? platform "timestamp" L = none
  /-- A reader sees every member, but no field that is named like the time of the response. -/
  read : ∀ key value, (key, value) ∈ members → key ≠ "timestamp" →
    (Json.ofFields members).field? key = some value
  dated : (Json.ofFields members).field? "timestamp" = some (.string now.iso)
  /-- A platform that was updated is marked only if the mark was given as a field. -/
  marked_iff : notRun ∈ members
    ↔ lastUpdate? platform L = none ∨ keptField? platform "status" L = some (.string "not_run")

/-! ### One member behind others -/

section Behind

variable {front : List (String × Json)} (hfront : (front.map (·.1)).Nodup) (last : String × Json)

include hfront

theorem nodup_behind_iff : ((front ++ [last]).map (·.1)).Nodup ↔ last.1 ∉ front.map (·.1) := by
  rw [List.map_append, List.map_singleton, ← List.concat_eq_append, List.nodup_concat]
  exact and_iff_left hfront

omit hfront in
theorem ofFields_behind (key : String) :
    (Json.ofFields (front ++ [last])).field? key
      = if key = last.1 then some last.2 else (Fields.ofList front).get? key := by
  show (Fields.ofList (front ++ [last])).get? key = _
  unfold Fields.ofList
  rw [List.foldl_append]
  exact Fields.get?_insert _ _ _ _

theorem field?_behind {key : String} {value : Json} (hmem : (key, value) ∈ front ++ [last])
    (hkey : key ≠ last.1) : (Json.ofFields (front ++ [last])).field? key = some value := by
  have hp : (key, value) ∈ front := by
    rcases List.mem_append.1 hmem with hmem | hmem
    · exact hmem
    · exact absurd (congrArg Prod.fst (List.mem_singleton.1 hmem)) hkey
  rw [ofFields_behind, if_neg hkey]
  exact Fields.get?_ofList_of_mem hfront hp

end Behind

/-! ### Members of an entry -/

section Entry

variable {e : LedgerEntry}

/-- What has no reserved name is a member of an entry when it is a field. -/
theorem mem_members_iff {p : String × Json} (hp : p.1 ∉ LedgerEntry.reserved) :
    p ∈ e.members ↔ p ∈ e.fields := by
  have hname {name : String} {value : Json} (h : name ∈ LedgerEntry.reserved) : p ≠ (name, value) := by
    rintro rfl
    exact hp h
  have hplatform : p ≠ ("platform", .string e.platform) := hname (by decide)
  have hupdated : p ≠ ("updatedAt", .string e.updatedAt.iso) := hname (by decide)
  unfold LedgerEntry.members
  simp [hplatform, hupdated]

theorem mem_names_iff {key : String} (hkey : key ∉ LedgerEntry.reserved) :
    key ∈ e.members.map (·.1) ↔ key ∈ e.fields.map (·.1) := by
  simp only [List.mem_map]
  refine exists_congr fun p => and_congr_left fun hp => mem_members_iff ?_
  rw [hp]
  exact hkey

/-- No name stands twice in an entry whose fields have no reserved names. -/
theorem nodup_members (hs : e.fields.Sorted)
    (hreserved : ∀ key ∈ LedgerEntry.reserved, key ∉ e.fields.map (·.1)) :
    (e.members.map (·.1)).Nodup := by
  have hfront : ((("platform", Json.string e.platform) :: e.fields).map (·.1)).Nodup :=
    List.nodup_cons.2 ⟨hreserved "platform" (by decide), Fields.nodup_keys hs⟩
  refine (nodup_behind_iff hfront ("updatedAt", .string e.updatedAt.iso)).2 fun h => ?_
  rcases List.mem_cons.1 h with h | h
  · have hne : "updatedAt" ≠ "platform" := by decide
    exact hne h
  · exact hreserved "updatedAt" (by decide) h

end Entry

/-! ### Answers -/

section Answers

variable {same : Json → Json → Prop} {L : List (Millis × Change)} {platform : String}

theorem rel_none_iff {α β : Type} {R : α → β → Prop} {o : Option α} {o' : Option β}
    (h : Option.Rel R o o') : o = none ↔ o' = none := by
  cases h <;> simp

/-- A name stands among fields that are kept when it was given. -/
theorem not_mem_fields_iff {fields : Fields} {key : String}
    (hkept : Option.Rel same (keptField? platform key L) (fields.get? key)) :
    key ∉ fields.map (·.1) ↔ keptField? platform key L = none :=
  Fields.not_mem_keys_iff.trans (rel_none_iff hkept).symm

variable {e : Option LedgerEntry}

theorem nodup_ledgerMembers (h : LedgerTold same L platform e) :
    ((ledgerMembers platform e).map (·.1)).Nodup := by
  cases h with
  | unrun =>
      show ["platform", "status"].Nodup
      decide
  | run _ hs hkept =>
      exact nodup_members hs fun key hkey =>
        (not_mem_fields_iff (hkept key)).2 (keptField?_of_reserved hkey)

/-- The time of the response is named anew, unless a field has its name. -/
theorem timestamp_not_mem_iff (h : LedgerTold same L platform e) :
    "timestamp" ∉ (ledgerMembers platform e).map (·.1) ↔ keptField? platform "timestamp" L = none := by
  cases h with
  | unrun h =>
      refine iff_of_true ?_ (keptField?_of_unrun h "timestamp")
      show "timestamp" ∉ ["platform", "status"]
      decide
  | run _ _ hkept =>
      exact (not_congr (mem_names_iff (by decide))).trans (not_mem_fields_iff (hkept "timestamp"))

/-- A ledger is marked when there is none, or when the mark is a field. -/
theorem notRun_mem_iff (hsame : ∀ {v w}, same v w → ∀ s, v = .string s ↔ w = .string s)
    (h : LedgerTold same L platform e) :
    notRun ∈ ledgerMembers platform e
      ↔ lastUpdate? platform L = none ∨ keptField? platform "status" L = some (.string "not_run") := by
  cases h with
  | unrun h => exact iff_of_true (List.mem_cons_of_mem _ (List.mem_singleton_self _)) (.inl h)
  | @run now h fields hs hkept =>
      have hfield : notRun ∈ fields ↔ fields.get? "status" = some (.string "not_run") :=
        ⟨Fields.get?_of_mem hs, Fields.mem_of_get?⟩
      have hgiven : fields.get? "status" = some (.string "not_run")
          ↔ keptField? platform "status" L = some (.string "not_run") := by
        have hstatus := hkept "status"
        generalize Fields.get? "status" fields = o at hstatus
        generalize keptField? platform "status" L = kept at hstatus
        cases hstatus with
        | none => rfl
        | @some v w hvw =>
            rw [Option.some_inj, Option.some_inj]
            exact (hsame hvw "not_run").symm
      have hupdated : lastUpdate? platform L ≠ none := by
        rw [h]
        exact Option.some_ne_none now
      rw [or_iff_right hupdated, ← hgiven, ← hfield]
      exact mem_members_iff (by decide)

/-- **Members.** What is written of a ledger that is told. -/
theorem tellsLedger_of_told (hsame : ∀ {v w}, same v w → ∀ s, v = .string s ↔ w = .string s)
    (h : LedgerTold same L platform e) (now : Millis) :
    TellsLedger same L platform now (ledgerAnswer now platform e) := by
  have hnodup := nodup_ledgerMembers h
  constructor
  case unrun =>
    intro hlast
    cases h with
    | unrun => rfl
    | run h => exact nomatch hlast.symm.trans h
  case run =>
    intro t hlast
    cases h with
    | unrun h => exact nomatch hlast.symm.trans h
    | run h hs hkept =>
        obtain rfl := Option.some.inj (hlast.symm.trans h)
        refine ⟨_, hs, hkept, ?_⟩
        exact List.append_assoc _ _ _
  case carried =>
    intro key v hv
    cases h with
    | unrun h => exact nomatch hv.symm.trans (keptField?_of_unrun h key)
    | run _ _ hkept =>
        have hfield := hkept key
        rw [hv] at hfield
        generalize hw : Fields.get? key _ = o at hfield
        cases hfield with
        | @some _ w hvw =>
            refine ⟨w, hvw, List.mem_append_left _ (List.mem_append_left _ ?_)⟩
            exact List.mem_cons_of_mem _ (Fields.mem_of_get? hw)
  case nodup_iff => exact (nodup_behind_iff hnodup _).trans (timestamp_not_mem_iff h)
  case read => exact fun key value hmem hkey => field?_behind hnodup _ hmem hkey
  case dated => exact (ofFields_behind _ "timestamp").trans (if_pos rfl)
  case marked_iff =>
    refine Iff.trans ?_ (notRun_mem_iff hsame h)
    -- the time of the response is no mark
    have hname : notRun.1 ≠ "timestamp" := by decide
    have hne : notRun ∉ [("timestamp", Json.string now.iso)] := fun h =>
      hname (congrArg Prod.fst (List.mem_singleton.1 h))
    exact List.mem_append.trans (or_iff_left hne)

end Answers

/-! ## Requests -/

/-- A request for the ledger of the platform under a name in the path. -/
structure Asks (req : Request) (platform : String) : Prop where
  method : req.method = "GET"
  target : ∃ segment, Route.ofTarget? req.target = some (.ledger segment)
    ∧ segmentText? segment = some platform

section Requests

variable {σ : Type} [Backend σ] {s : σ} {req : Request} {platform : String}

theorem answerLedger_fst (now : Millis) (platform : String) (s : σ) :
    (answerLedger now platform s).1 =
      match (Backend.ledger? platform s).1 with
      | .ok e => ledgerResponse now platform e
      | .error e => .storeUnavailable e.message := by
  unfold answerLedger
  rcases Backend.ledger? platform s with ⟨_ | _, _⟩ <;> rfl

theorem handle_of_asks (h : Asks req platform) (now : Millis) (freshId : String) (v : Service) (s : σ) :
    (v.handle now freshId req s).1 = (answerLedger now platform s).1.adding anyOrigin := by
  obtain ⟨hmethod, segment, hroute, hname⟩ := h
  unfold Service.handle Service.answer withName
  simp [hmethod, hroute, hname, Route.methods]

/-- Holds when a response consists of members that tell of the ledger that a store tells. -/
def Gives (same : Json → Json → Prop) (L : List (Millis × Change)) (platform : String) (now : Millis)
    (s : σ) (response : Response) : Prop :=
  ∃ e, (Backend.ledger? platform s).1 = .ok e
    ∧ TellsLedger same L platform now (ledgerAnswer now platform e)
    ∧ response = (Response.ofJson 200 (.ofFields (ledgerAnswer now platform e))).adding anyOrigin

theorem gives_of_told {same : Json → Json → Prop} {L : List (Millis × Change)} {e : Option LedgerEntry}
    (hreq : Asks req platform) (hsame : ∀ {v w}, same v w → ∀ s, v = .string s ↔ w = .string s)
    (he : (Backend.ledger? platform s).1 = .ok e) (htold : LedgerTold same L platform e)
    (now : Millis) (freshId : String) (v : Service) :
    Gives same L platform now s (v.handle now freshId req s).1 := by
  refine ⟨e, he, tellsLedger_of_told hsame htold now, ?_⟩
  rw [handle_of_asks hreq, answerLedger_fst, he]
  rfl

/-- A field that was given is read in the answer, unless it is named like the time of the response. -/
theorem Gives.field? {same : Json → Json → Prop} {L : List (Millis × Change)} {now : Millis}
    {response : Response} (h : Gives same L platform now s response) {key : String} {value : Json}
    (hvalue : keptField? platform key L = some value) (hkey : key ≠ "timestamp") :
    ∃ body w, response.body = .json body ∧ same value w ∧ body.field? key = some w := by
  obtain ⟨e, -, htells, rfl⟩ := h
  obtain ⟨w, hw, hmem⟩ := htells.carried key value hvalue
  exact ⟨_, w, rfl, hw, htells.read key w hmem hkey⟩

end Requests

/-- **Ledgers.** Behind every history of values that a program can hold, a request for the ledger of a
platform is answered with the fields that were given last: by a store in memory as they were given, by
a database as they are read back. A database refuses to tell a ledger that was given a value too deep
to be read. -/
theorem ledgerAnswer_behind {events : List Event} (hevents : ∀ event ∈ events, event.Proper)
    {req : Request} {platform : String} (hreq : Asks req platform) (now : Millis) (freshId : String)
    (v : Service) :
    Gives Eq (Store.memoryAccepted events) platform now (Store.memoryBehind events)
        (v.handle now freshId req (Store.memoryBehind events)).1
      ∧ (LedgerLegible (Store.relationalAccepted events) platform →
        Gives Rereads (Store.relationalAccepted events) platform now (Store.relationalBehind events)
          (v.handle now freshId req (Store.relationalBehind events)).1)
      ∧ (¬LedgerLegible (Store.relationalAccepted events) platform →
        (v.handle now freshId req (Store.relationalBehind events)).1
          = (Response.storeUnavailable Fault.undecodable.message).adding anyOrigin) := by
  obtain ⟨hlegible, hillegible⟩ := RelationalStore.ledgerTold_behind hevents platform
  refine ⟨?_, fun h => ?_, fun h => ?_⟩
  · obtain ⟨e, he, htold⟩ := MemoryStore.ledgerTold_behind events platform
    have hsame {v w : Json} (hvw : v = w) (s : String) : v = .string s ↔ w = .string s := by rw [hvw]
    exact gives_of_told hreq hsame he htold now freshId v
  · obtain ⟨e, he, htold⟩ := hlegible h
    exact gives_of_told hreq Rereads.string_iff he htold now freshId v
  · rw [handle_of_asks hreq, answerLedger_fst, hillegible h]

/-- Fields of a ledger, of which one has the name of the platform. -/
def toldFields : Fields := [("errors", .ofNat 1), ("platform", .null), ("status", .string "completed")]

/-- A history in which a ledger is given these fields, before the connection is closed. -/
def toldHistory : List Event := [.ask 5 (.change (.record "docs" toldFields)), .release]

/-- The request for the ledger. -/
def docsLedger : Request := ⟨"GET", "/extractions/docs", none, []⟩

theorem asks_docsLedger : Asks docsLedger "docs" := ⟨rfl, "docs", by decide +kernel, by decide +kernel⟩

theorem proper_toldHistory : ∀ event ∈ toldHistory, event.Proper := by
  have hfields : Json.Proper (.object toldFields) := by
    refine .object ?_ ?_
    · unfold Fields.Sorted
      decide
    · simp only [toldFields, List.forall_mem_cons]
      exact ⟨.number (show Json.InWord 1 by decide), .null, .string _, List.forall_mem_nil _⟩
  simp only [toldHistory, List.forall_mem_cons]
  exact ⟨hfields, trivial, List.forall_mem_nil _⟩

/-- Both stores tell the status that was given. -/
theorem ledgerAnswer_behind_toldHistory :
    (∀ event ∈ toldHistory, event.Proper) ∧ Asks docsLedger "docs"
      ∧ (∃ body, (bareService.handle 9 "run" docsLedger (Store.memoryBehind toldHistory)).1.body
          = .json body ∧ body.field? "status" = some (.string "completed"))
      ∧ ∃ body, (bareService.handle 9 "run" docsLedger (Store.relationalBehind toldHistory)).1.body
          = .json body ∧ body.field? "status" = some (.string "completed") := by
  obtain ⟨hmemory, hrelational, -⟩ :=
    ledgerAnswer_behind proper_toldHistory asks_docsLedger 9 "run" bareService
  have haccepted : Store.relationalAccepted toldHistory = [(5, .record "docs" toldFields)] := rfl
  have hlegible : LedgerLegible (Store.relationalAccepted toldHistory) "docs" := by
    rw [haccepted]
    show ∀ p ∈ toldFields, _
    simp only [toldFields, List.forall_mem_cons]
    exact ⟨fun _ => by decide, fun _ => by decide, fun _ => by decide, List.forall_mem_nil _⟩
  have hkept : keptField? "docs" "status" [(5, .record "docs" toldFields)]
      = some (.string "completed") := rfl
  refine ⟨proper_toldHistory, asks_docsLedger, ?_, ?_⟩
  · obtain ⟨body, _, hbody, rfl, hfield⟩ := hmemory.field? hkept (by decide)
    exact ⟨body, hbody, hfield⟩
  · obtain ⟨body, _, hbody, hw, hfield⟩ := (hrelational hlegible).field? hkept (by decide)
    obtain rfl := (hw.string_iff "completed").1 rfl
    exact ⟨body, hbody, hfield⟩

/-- A field named like the time of the response makes the name stand twice, and is not read; and a
platform that was updated may be marked as one that never was. -/
theorem ledgerAnswer_unfaithful :
    (¬∀ (events : List Event) (platform : String) (now : Millis) (e : Option LedgerEntry),
        (∀ event ∈ events, event.Proper) →
        (Backend.ledger? platform (Store.memoryBehind events)).1 = .ok e →
        ((ledgerAnswer now platform e).map (·.1)).Nodup)
      ∧ (¬∀ (events : List Event) (req : Request) (platform : String) (now : Millis) (freshId : String)
          (v : Service) (key : String) (value : Json), (∀ event ∈ events, event.Proper) →
          Asks req platform → keptField? platform key (Store.memoryAccepted events) = some value →
          ∃ body, (v.handle now freshId req (Store.memoryBehind events)).1.body = .json body
            ∧ body.field? key = some value)
      ∧ ¬∀ (events : List Event) (platform : String) (now : Millis) (e : Option LedgerEntry),
        (∀ event ∈ events, event.Proper) →
        (Backend.ledger? platform (Store.memoryBehind events)).1 = .ok e →
        (notRun ∈ ledgerAnswer now platform e
          ↔ lastUpdate? platform (Store.memoryAccepted events) = none) := by
  -- one field is enough
  let given (key : String) (value : Json) : List Event :=
    [.ask 5 (.change (.record "docs" [(key, value)]))]
  have hproper {key : String} {value : Json} (h : value.Proper) :
      ∀ event ∈ given key value, event.Proper := by
    refine List.forall_mem_singleton.2 (.object (List.pairwise_singleton _ _) ?_)
    exact List.forall_mem_singleton.2 h
  refine ⟨fun h => ?_, fun h => ?_, fun h => ?_⟩
  · have hnames : ["platform", "timestamp", "updatedAt", "timestamp"].Nodup :=
      h (given "timestamp" .null) "docs" 9 _ (hproper .null) rfl
    revert hnames
    decide
  · obtain ⟨body, hbody, hfield⟩ := h (given "timestamp" .null) docsLedger "docs" 9 "run" bareService
      "timestamp" .null (hproper .null) asks_docsLedger rfl
    rw [handle_of_asks asks_docsLedger, answerLedger_fst] at hbody
    obtain rfl := Body.json.inj hbody
    -- the time of the response is read instead
    exact nomatch ((ofFields_behind _ "timestamp").trans (if_pos rfl)).symm.trans hfield
  · have hmarked := (h (given "status" (.string "not_run")) "docs" 9 _ (hproper (.string _)) rfl).1
      (List.mem_cons_of_mem _ List.mem_cons_self)
    exact nomatch hmarked

end ContentGraph.Http
