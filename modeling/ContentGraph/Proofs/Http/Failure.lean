import ContentGraph.Http.Service
import ContentGraph.Proofs.Text.Encoding
import ContentGraph.Store.Memory
import Mathlib.Tactic.ByContra
import Mathlib.Tactic.Push

/-!
# Failures of the service

A failure that the service finds itself is a JSON object with the code of its status and a message.
A request is understood when it names a route by a method that the route takes, the name in its
path is text, and its body is a search where one is looked for. Main statement: for every request,
store and registry, a failure has that form exactly when the request was understood
(`contractual_iff_understood`); what is not understood is refused with no body or plain text. A
request for headers alone is answered as if all were asked for, without the body.
-/

namespace ContentGraph.Http

open Store

/-! ## The form of a failure -/

/-- The code that goes with a status. -/
def failureCode? : Nat → Option String
  | 400 => some "bad_request"
  | 404 => some "not_found"
  | 409 => some "conflict"
  | 503 => some "store_unavailable"
  | _ => none

/-- Holds when the body is an object with an error, which has the code of the status and a
message. -/
def Response.IsContractual (r : Response) : Prop :=
  ∃ code message, failureCode? r.status = some code
    ∧ r.body = .json (.object [("error", .object [("code", .string code),
        ("message", .string message)])])

/-- Holds for what the service may answer to a request that it understands. -/
def Response.IsSettled (r : Response) : Prop := r.status < 400 ∨ r.IsContractual

/-- Holds for what is answered to a request that is not understood. -/
structure Response.IsRejection (r : Response) : Prop where
  status : r.status ∈ [400, 404, 405, 413, 415, 422]
  body : r.body = .empty ∨ ∃ text, r.body = .text text

/-! ## Requests that are understood -/

/-- The name in the path of a route, as it is written. -/
def Route.segment? : Route → Option String
  | .ledger platform => some platform
  | .runs platform => some platform
  | .platformSearch platform => some platform
  | .run id => some id
  | .asset id => some id
  | _ => none

/-- Holds for the routes that look for a search in the body. -/
def Route.TakesSearch : Route → Prop
  | .search => True
  | .platformSearch _ => True
  | _ => False

/-- Holds when nothing but what it asks for can make a request fail. -/
structure Request.Understood (req : Request) (route : Route) : Prop where
  place : Route.ofTarget? req.target = some route
  method : req.method ∈ route.methods
  name : ∀ segment, route.segment? = some segment → (segmentText? segment).isSome
  body : route.TakesSearch → ∃ search, SearchRequest.ofRequest req = .ok search

theorem failureBody_eq (code message : String) :
    Response.failureBody code message
      = .object [("error", .object [("code", .string code), ("message", .string message)])] := by
  have hkeys : ¬"message" < "code" := by decide
  simp [Response.failureBody, Json.ofFields, Fields.ofList, Fields.insert, hkeys]

namespace Response

theorem isContractual_failure {status : Nat} {code : String} (h : failureCode? status = some code)
    (message : String) : (failure status code message).IsContractual :=
  ⟨code, message, h, congrArg Body.json (failureBody_eq code message)⟩

theorem isSettled_notFound (message : String) : (notFound message).IsSettled :=
  .inr (isContractual_failure rfl message)

theorem isSettled_badRequest (message : String) : (badRequest message).IsSettled :=
  .inr (isContractual_failure rfl message)

theorem isSettled_conflict (message : String) : (conflict message).IsSettled :=
  .inr (isContractual_failure rfl message)

theorem isSettled_storeUnavailable (message : String) : (storeUnavailable message).IsSettled :=
  .inr (isContractual_failure rfl message)

end Response

/-! ## Answers -/

section Answers

variable {σ : Type} [Backend σ]

theorem isSettled_ofJson {status : Nat} (h : status < 400) (value : Json) :
    (Response.ofJson status value).IsSettled := .inl h

theorem isSettled_ledgerResponse (now : Millis) (platform : String) (entry : Option LedgerEntry) :
    (ledgerResponse now platform entry).IsSettled :=
  isSettled_ofJson (by decide) _

theorem isSettled_answerLedger (now : Millis) (platform : String) (s : σ) :
    (answerLedger now platform s).1.IsSettled := by
  unfold answerLedger
  split
  · exact isSettled_ledgerResponse now platform _
  · exact Response.isSettled_storeUnavailable _

theorem isSettled_startRun (now : Millis) (id platform : String) (v : Service) :
    (startRun now id platform v).1.IsSettled := by
  unfold startRun
  split
  · exact Response.isSettled_notFound _
  · split
    · exact Response.isSettled_conflict _
    · exact isSettled_ofJson (by decide) _

theorem isSettled_runResponse (id : String) (record : Option RunRecord) :
    (runResponse id record).IsSettled := by
  unfold runResponse
  split
  · exact isSettled_ofJson (by decide) _
  · exact Response.isSettled_notFound _

theorem isSettled_answerSearch (r : SearchRequest) (s : σ) :
    (answerSearch r s).1.IsSettled := by
  unfold answerSearch
  split
  · exact Response.isSettled_badRequest _
  · exact Response.isSettled_storeUnavailable _
  · exact isSettled_ofJson (by decide) _

theorem isSettled_answerPlatformSearch (v : Service) (platform : String) (r : SearchRequest)
    (s : σ) : (answerPlatformSearch v platform r s).1.IsSettled := by
  unfold answerPlatformSearch
  split
  · exact Response.isSettled_notFound _
  · exact isSettled_answerSearch _ s

theorem isSettled_answerAsset (id : String) (s : σ) : (answerAsset id s).1.IsSettled := by
  unfold answerAsset
  split
  · exact Response.isSettled_storeUnavailable _
  · exact Response.isSettled_notFound _
  · split
    · exact Response.isSettled_storeUnavailable _
    · exact isSettled_ofJson (by decide) _

theorem isSettled_answerRemoval (now : Millis) (id : String) (s : σ) :
    (answerRemoval now id s).1.IsSettled := by
  unfold answerRemoval
  split
  · exact Response.isSettled_storeUnavailable _
  · split
    · exact Response.isSettled_storeUnavailable _
    · exact isSettled_ofJson (by decide) _

end Answers

/-! ## Names and bodies -/

theorem isRejection_ofText {status : Nat} (h : status ∈ [400, 404, 405, 413, 415, 422])
    (text : String) : (Response.ofText status text).IsRejection := ⟨h, .inr ⟨text, rfl⟩⟩

section Parts

variable {α : Type} {segment : String} {rest : α} {next : String → Response × α}

theorem withName_of_some {name : String} (h : segmentText? segment = some name) :
    withName segment rest next = next name := by
  unfold withName
  rw [h]

theorem withName_of_none (h : segmentText? segment = none) :
    (withName segment rest next).1.IsRejection := by
  unfold withName
  rw [h]
  exact isRejection_ofText (by decide) _

theorem isRejection_of_ofRequest {req : Request} {response : Response}
    (h : SearchRequest.ofRequest req = .error response) : response.IsRejection := by
  unfold SearchRequest.ofRequest at h
  split at h
  · obtain rfl := Except.error.inj h
    exact isRejection_ofText (by decide) _
  · split at h
    · obtain rfl := Except.error.inj h
      exact isRejection_ofText (by decide) _
    · split at h
      · exact nomatch h
      · obtain rfl := Except.error.inj h
        exact isRejection_ofText (by decide) _
      · obtain rfl := Except.error.inj h
        exact isRejection_ofText (by decide) _

variable {req : Request} {follow : SearchRequest → Response × α}

theorem withSearch_of_ok {search : SearchRequest} (h : SearchRequest.ofRequest req = .ok search) :
    withSearch req rest follow = follow search := by
  unfold withSearch
  rw [h]

theorem withSearch_of_error {response : Response}
    (h : SearchRequest.ofRequest req = .error response) :
    (withSearch req rest follow).1.IsRejection := by
  unfold withSearch
  rw [h]
  exact isRejection_of_ofRequest h

end Parts

/-! ## Routes -/

section Routes

variable {σ : Type} [Backend σ] {req : Request} {route : Route}

theorem isSettled_answer (h : req.Understood route) (now : Millis) (freshId : String)
    (v : Service) (s : σ) : (v.answer now freshId req s route).1.IsSettled := by
  have hname : ∀ segment, route.segment? = some segment →
      ∃ name, segmentText? segment = some name :=
    fun segment hsegment => Option.isSome_iff_exists.1 (h.name segment hsegment)
  cases route with
  | health => exact isSettled_ofJson (by decide) _
  | connection => exact isSettled_ofJson (by decide) _
  | ledger platform =>
      obtain ⟨name, hname⟩ := hname platform rfl
      simp only [Service.answer, withName_of_some hname]
      exact isSettled_answerLedger now name s
  | runs platform =>
      obtain ⟨name, hname⟩ := hname platform rfl
      simp only [Service.answer, withName_of_some hname]
      exact isSettled_startRun now freshId name v
  | platformSearch platform =>
      obtain ⟨name, hname⟩ := hname platform rfl
      obtain ⟨search, hsearch⟩ := h.body trivial
      simp only [Service.answer, withName_of_some hname, withSearch_of_ok hsearch]
      exact isSettled_answerPlatformSearch v name search s
  | run id =>
      obtain ⟨name, hname⟩ := hname id rfl
      simp only [Service.answer, withName_of_some hname]
      exact isSettled_runResponse name _
  | search =>
      obtain ⟨search, hsearch⟩ := h.body trivial
      simp only [Service.answer, withSearch_of_ok hsearch]
      exact isSettled_answerSearch search s
  | asset id =>
      obtain ⟨name, hname⟩ := hname id rfl
      simp only [Service.answer, withName_of_some hname]
      by_cases hdelete : req.method = "DELETE"
      · simp only [hdelete, if_true]
        exact isSettled_answerRemoval now name s
      · simp only [hdelete, if_false]
        exact isSettled_answerAsset name s

theorem isRejection_of_name {segment : String} (hsegment : route.segment? = some segment)
    (hname : segmentText? segment = none) (now : Millis) (freshId : String) (v : Service) (s : σ) :
    (v.answer now freshId req s route).1.IsRejection := by
  cases route with
  | health => exact nomatch hsegment
  | connection => exact nomatch hsegment
  | search => exact nomatch hsegment
  | ledger platform =>
      obtain rfl := Option.some.inj hsegment
      exact withName_of_none hname
  | runs platform =>
      obtain rfl := Option.some.inj hsegment
      exact withName_of_none hname
  | platformSearch platform =>
      obtain rfl := Option.some.inj hsegment
      exact withName_of_none hname
  | run id =>
      obtain rfl := Option.some.inj hsegment
      exact withName_of_none hname
  | asset id =>
      obtain rfl := Option.some.inj hsegment
      exact withName_of_none hname

theorem isRejection_of_body (htakes : route.TakesSearch) {response : Response}
    (hbody : SearchRequest.ofRequest req = .error response) (now : Millis) (freshId : String)
    (v : Service) (s : σ) : (v.answer now freshId req s route).1.IsRejection := by
  cases route with
  | search => exact withSearch_of_error hbody
  | platformSearch platform =>
      -- the name is read before the body
      cases hname : segmentText? platform with
      | none => exact withName_of_none hname
      | some name =>
          simp only [Service.answer, withName_of_some hname]
          exact withSearch_of_error hbody
  | health => exact htakes.elim
  | connection => exact htakes.elim
  | ledger platform => exact htakes.elim
  | runs platform => exact htakes.elim
  | run id => exact htakes.elim
  | asset id => exact htakes.elim

theorem isRejection_answer (hplace : Route.ofTarget? req.target = some route)
    (hmethod : req.method ∈ route.methods) (h : ¬req.Understood route) (now : Millis)
    (freshId : String) (v : Service) (s : σ) :
    (v.answer now freshId req s route).1.IsRejection := by
  by_cases hname : ∀ segment, route.segment? = some segment → (segmentText? segment).isSome
  · by_cases htakes : route.TakesSearch
    · cases hbody : SearchRequest.ofRequest req with
      | ok search => exact absurd ⟨hplace, hmethod, hname, fun _ => ⟨search, hbody⟩⟩ h
      | error response => exact isRejection_of_body htakes hbody now freshId v s
    · exact absurd ⟨hplace, hmethod, hname, fun htakes' => absurd htakes' htakes⟩ h
  · push Not at hname
    obtain ⟨segment, hsegment, hnone⟩ := hname
    exact isRejection_of_name hsegment (Option.not_isSome_iff_eq_none.1 hnone) now freshId v s

theorem answer_congr {req' : Request} (hdelete : req.method ≠ "DELETE")
    (hdelete' : req'.method ≠ "DELETE") (hsearch : ¬route.TakesSearch) (now : Millis)
    (freshId : String) (v : Service) (s : σ) :
    v.answer now freshId req s route = v.answer now freshId req' s route := by
  cases route with
  | search => exact absurd trivial hsearch
  | platformSearch platform => exact absurd trivial hsearch
  | run id => simp only [Service.answer, hdelete, hdelete', if_false]
  | asset id => simp only [Service.answer, hdelete, hdelete', if_false]
  | health => rfl
  | connection => rfl
  | ledger platform => rfl
  | runs platform => rfl

end Routes

/-! ## Requests -/

section Requests

variable {σ : Type} [Backend σ] (now : Millis) (freshId : String) (req : Request) (v : Service)
  (s : σ)

theorem not_mem_methods_options (route : Route) : "OPTIONS" ∉ route.methods := by
  cases route <;> simp [Route.methods]

theorem mem_methods_head_iff (route : Route) : "HEAD" ∈ route.methods ↔ "GET" ∈ route.methods := by
  cases route <;> simp [Route.methods]

theorem not_takesSearch_of_get {route : Route} (h : "GET" ∈ route.methods) :
    ¬route.TakesSearch := by
  cases route <;> simp_all [Route.methods, Route.TakesSearch]

theorem handle_of_method {route : Route} (hplace : Route.ofTarget? req.target = some route)
    (hmethod : req.method ∈ route.methods) :
    (v.handle now freshId req s).1
      = ((if req.method = "HEAD" then (v.answer now freshId req s route).1.withoutBody
          else (v.answer now freshId req s route).1).adding anyOrigin) := by
  have hoptions : req.method ≠ "OPTIONS" := by
    rintro heq
    exact not_mem_methods_options route (heq ▸ hmethod)
  unfold Service.handle
  simp only [hoptions, if_false, hplace, hmethod, if_true]

theorem handle_of_not_method {route : Route} (hplace : Route.ofTarget? req.target = some route)
    (hmethod : req.method ∉ route.methods) (hoptions : req.method ≠ "OPTIONS") :
    (v.handle now freshId req s).1 = ⟨405, anyOrigin ++ allowed (some route), .empty⟩ := by
  unfold Service.handle
  simp only [hoptions, if_false, hplace, hmethod]

theorem isRejection_handle (hoptions : req.method ≠ "OPTIONS")
    (h : ¬∃ route, req.Understood route) : (v.handle now freshId req s).1.IsRejection := by
  cases hplace : Route.ofTarget? req.target with
  | none =>
      unfold Service.handle
      simp only [hoptions, if_false, hplace]
      exact ⟨by decide, .inl rfl⟩
  | some route =>
      by_cases hmethod : req.method ∈ route.methods
      · rw [handle_of_method now freshId req v s hplace hmethod]
        have hrejection := isRejection_answer hplace hmethod
          (fun hroute => h ⟨route, hroute⟩) now freshId v s
        by_cases hhead : req.method = "HEAD"
        · rw [if_pos hhead]
          exact ⟨hrejection.status, .inl rfl⟩
        · rw [if_neg hhead]
          exact ⟨hrejection.status, hrejection.body⟩
      · rw [handle_of_not_method now freshId req v s hplace hmethod hoptions]
        exact ⟨by simp, .inl rfl⟩

theorem isSettled_handle {route : Route} (h : req.Understood route) (hhead : req.method ≠ "HEAD") :
    (v.handle now freshId req s).1.IsSettled := by
  rw [handle_of_method now freshId req v s h.place h.method, if_neg hhead]
  exact isSettled_answer h now freshId v s

theorem handle_head (hhead : req.method = "HEAD") :
    (v.handle now freshId req s).1
      = (v.handle now freshId { req with method := "GET" } s).1.withoutBody := by
  let get : Request := { req with method := "GET" }
  have hget : get.method = "GET" := rfl
  show _ = (v.handle now freshId get s).1.withoutBody
  have hoptions : req.method ≠ "OPTIONS" := by simp [hhead]
  cases hplace : Route.ofTarget? req.target with
  | none =>
      have hplace' : Route.ofTarget? get.target = none := hplace
      unfold Service.handle
      simp only [hhead, hget, hplace, hplace']
      rfl
  | some route =>
      have hplace' : Route.ofTarget? get.target = some route := hplace
      by_cases htakes : "GET" ∈ route.methods
      · have hmethod : req.method ∈ route.methods := by
          rw [hhead]
          exact (mem_methods_head_iff route).2 htakes
        have hdelete : req.method ≠ "DELETE" := by simp [hhead]
        have hdelete' : get.method ≠ "DELETE" := by simp [hget]
        rw [handle_of_method now freshId req v s hplace hmethod, if_pos hhead,
          handle_of_method now freshId get v s hplace' htakes, if_neg (by simp [hget]),
          answer_congr hdelete hdelete' (not_takesSearch_of_get htakes)]
        rfl
      · have hmethod : req.method ∉ route.methods := by
          rw [hhead]
          exact mt (mem_methods_head_iff route).1 htakes
        rw [handle_of_not_method now freshId req v s hplace hmethod hoptions,
          handle_of_not_method now freshId get v s hplace' htakes (by simp [hget])]
        rfl

end Requests

/-- **Failures.** Of the failures that have a body, exactly those of understood requests are as the
contract has them. A request that is not understood is refused without a body or in plain text,
and a request for headers is answered as if all were asked for. -/
theorem contractual_iff_understood {σ : Type} [Backend σ] (now : Millis) (freshId : String)
    (req : Request) (v : Service) (s : σ) :
    let r := (v.handle now freshId req s).1
    (req.method ≠ "HEAD" → 400 ≤ r.status → (r.IsContractual ↔ ∃ route, req.Understood route))
      ∧ (req.method ≠ "OPTIONS" → (¬∃ route, req.Understood route) → r.IsRejection)
      ∧ (req.method = "HEAD" →
        r = (v.handle now freshId { req with method := "GET" } s).1.withoutBody) := by
  intro r
  refine ⟨fun hhead hfailed => ?_, fun hoptions h => ?_, fun hhead => ?_⟩
  · constructor
    · intro hcontractual
      by_contra h
      -- a failure is no answer to a question about options
      have hoptions : req.method ≠ "OPTIONS" := by
        intro heq
        have hstatus : r.status = 200 := by
          show (v.handle now freshId req s).1.status = 200
          unfold Service.handle
          rw [if_pos heq]
        omega
      obtain ⟨code, message, -, hbody⟩ := hcontractual
      obtain hempty | ⟨text, htext⟩ := (isRejection_handle now freshId req v s hoptions h).body
      · exact nomatch hbody.symm.trans hempty
      · exact nomatch hbody.symm.trans htext
    · rintro ⟨route, hroute⟩
      obtain hgood | hcontractual := isSettled_handle now freshId req v s hroute hhead
      · exact absurd hfailed (Nat.not_le.2 hgood)
      · exact hcontractual
  · exact isRejection_handle now freshId req v s hoptions h
  · exact handle_head now freshId req v s hhead

/-! ## Two searches -/

/-- The service without extractors. -/
def bareService : Service := ⟨{ store := ⟨"kh.sqlite", 5, 30⟩ }, {}⟩

/-- A search with some text as its body. -/
def searchFor (body : String) : Request :=
  ⟨"POST", "/search", some "application/json", Utf8.encode body.toList⟩

/-- Bytes that are a text are decoded as it. -/
theorem decodeBytes_encode {α : Type} (d : Json.Decoder α) (s : String) :
    Json.decodeBytes d (Utf8.encode s.toList) = Json.decodeText d s := by
  unfold Json.decodeBytes Json.decodeText
  rw [Utf8.pieces_encode, List.flatMap_map]
  exact congrArg (Json.decodeChars d) (List.flatMap_singleton' _)

/-- A byte that is not UTF-8 spoils a query, but no field that is skipped. -/
example :
    let body (key : String) : List UInt8 := Utf8.encode ("\x7b\"" ++ key ++ "\":\"").toList
      ++ [0xFF] ++ Utf8.encode "\"\x7d".toList
    (Json.decodeBytes SearchRequest.decoder (body "query")).isOk = false
      ∧ (Json.decodeBytes SearchRequest.decoder (body "note")).isOk = true := by
  decide +kernel

theorem isOk_ofRequest_searchFor {body : String}
    (hsize : (Utf8.encode body.toList).length ≤ SearchRequest.maxBodySize) :
    (SearchRequest.ofRequest (searchFor body)).isOk
      = (Json.decodeText SearchRequest.decoder body).isOk := by
  have hannounced : ¬(!announcesJson (some "application/json")) = true := by decide +kernel
  unfold SearchRequest.ofRequest searchFor
  dsimp only
  rw [if_neg hannounced, if_neg (Nat.not_lt.2 hsize), decodeBytes_encode]
  rcases Json.decodeText SearchRequest.decoder body with (_ | _) | _ <;> rfl

theorem understood_searchFor {body : String}
    (h : (SearchRequest.ofRequest (searchFor body)).isOk = true) :
    (searchFor body).Understood .search where
  place := by
    show Route.ofTarget? "/search" = _
    decide +kernel
  method := by
    show "POST" ∈ Route.search.methods
    decide
  name _ hsegment := nomatch hsegment
  body _ := by
    cases hread : SearchRequest.ofRequest (searchFor body) with
    | ok search => exact ⟨search, rfl⟩
    | error response =>
        rw [hread] at h
        exact nomatch h

theorem not_understood_searchFor {body : String}
    (h : (SearchRequest.ofRequest (searchFor body)).isOk = false) :
    ¬∃ route, (searchFor body).Understood route := by
  rintro ⟨route, hroute⟩
  have hplace : Route.ofTarget? "/search" = some .search := by decide +kernel
  obtain rfl : route = .search := Option.some.inj (hroute.place.symm.trans hplace)
  obtain ⟨search, hsearch⟩ := hroute.body trivial
  rw [hsearch] at h
  exact nomatch h

theorem not_understood_halfBody : ¬∃ route, (searchFor "\x7b").Understood route :=
  not_understood_searchFor ((isOk_ofRequest_searchFor (by decide +kernel)).trans (by decide +kernel))

/-- A search for nothing is understood and fails as the contract says, one for half an object is
refused. -/
theorem contractual_iff_understood_searchFor :
    (bareService.handle 0 "run" (searchFor "\x7b\x7d") ({} : MemoryStore)).1.IsContractual
      ∧ (bareService.handle 0 "run" (searchFor "\x7b") ({} : MemoryStore)).1.IsRejection := by
  obtain ⟨hform, -, -⟩ :=
    contractual_iff_understood 0 "run" (searchFor "\x7b\x7d") bareService ({} : MemoryStore)
  obtain ⟨-, hrefused, -⟩ :=
    contractual_iff_understood 0 "run" (searchFor "\x7b") bareService ({} : MemoryStore)
  constructor
  · exact (hform (by decide) (by decide +kernel)).2
      ⟨.search, understood_searchFor
        ((isOk_ofRequest_searchFor (by decide +kernel)).trans (by decide +kernel))⟩
  · exact hrefused (by decide) not_understood_halfBody

/-- A body that is no JSON is answered by 400 in plain text. -/
theorem halfBody_uncontractual :
    ¬∀ (now : Millis) (freshId : String) (req : Request) (v : Service) (s : MemoryStore),
      400 ≤ (v.handle now freshId req s).1.status →
        ∃ code message, (v.handle now freshId req s).1.body
          = .json (.object [("error", .object [("code", .string code),
              ("message", .string message)])]) := by
  intro h
  have hrefused := isRejection_handle 0 "run" (searchFor "\x7b") bareService ({} : MemoryStore)
    (by decide) not_understood_halfBody
  obtain ⟨code, message, hjson⟩ := h 0 "run" (searchFor "\x7b") bareService {} (by decide +kernel)
  obtain hempty | ⟨text, htext⟩ := hrefused.body
  · exact nomatch hjson.symm.trans hempty
  · exact nomatch hjson.symm.trans htext

end ContentGraph.Http
