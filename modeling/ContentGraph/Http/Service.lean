import ContentGraph.Http.MediaType
import ContentGraph.Http.Message
import ContentGraph.Http.Route
import ContentGraph.Run.Dispatcher
import ContentGraph.Search

/-!
# The HTTP service

Answers requests from a store and starts runs. A request is judged in this order: its path, its
method, the name in its path, the type of its body, the body, and then what it asks for. Pages from
anywhere may use the service, so every response allows all origins.
-/

namespace ContentGraph.Http

/-- What the service keeps beside the store. -/
structure Service where
  settings : Settings
  dispatcher : Dispatcher := {}

/-! ## Bodies -/

/-- What a search asks for. -/
structure SearchRequest where
  query : String := ""
  filters : Filters := {}
deriving Repr, DecidableEq

namespace SearchRequest

/-- The fields of a search in JSON text. -/
def shape : Json.RecordShape SearchRequest where
  names := ["query", "filters"]
  set
    | 0, r, s => (Json.decodeString s).map fun (x, s) => ({ r with query := x }, s)
    | _, r, s => (Filters.decoder s).map fun (x, s) => ({ r with filters := x }, s)

/-- Decodes a search from JSON text. -/
def decoder : Json.Decoder SearchRequest := Json.decodeRecord shape {}

/-- The most bytes of a body that are read. -/
def maxBodySize : Nat := 2097152

/-- The search in the body of a request, or the response to a body that holds none. -/
def ofRequest (req : Request) : Except Response SearchRequest :=
  if !announcesJson req.contentType then
    .error (.ofText 415 "Expected request with \x60Content-Type: application/json\x60")
  else if maxBodySize < req.body.length then
    .error (.ofText 413 "Failed to buffer the request body: length limit exceeded")
  else
    match Json.decodeBytes decoder req.body with
    | .ok r => .ok r
    | .error .malformed => .error (.ofText 400 "Failed to parse the request body as JSON")
    | .error .mismatch =>
      .error (.ofText 422 "Failed to deserialize the JSON body into the target type")

end SearchRequest

/-! ## Answers -/

/-- The name of the service. -/
def serviceName : String := "knowledge-harness"

variable {σ : Type} [Store.Backend σ]

/-- The health of the store. -/
def answerHealth (now : Millis) (s : σ) : Response × σ :=
  let (report, s) := Store.Backend.health s
  (.ofJson 200 (.ofFields ([("timestamp", .string now.iso), ("service", .string serviceName)]
    ++ report.fields)), s)

/-- Whether the store can be reached. -/
def answerConnection (now : Millis) (s : σ) : Response × σ :=
  let (isConnected, s) := Store.Backend.isConnected s
  let message := if isConnected then "Connection successful" else "Connection failed"
  (.ofJson 200 (.ofFields [("connected", .bool isConnected), ("timestamp", .string now.iso),
    ("message", .string message)]), s)

/-- The members that are written in answer to a question for the ledger of a platform: those of the
ledger, and then the time of the response. -/
def ledgerAnswer (now : Millis) (platform : String) (entry : Option LedgerEntry) :
    List (String × Json) :=
  ledgerMembers platform entry ++ [("timestamp", .string now.iso)]

/-- The ledger of a platform with the time of the response, which hides a field of that name. -/
def ledgerResponse (now : Millis) (platform : String) (entry : Option LedgerEntry) : Response :=
  .ofJson 200 (.ofFields (ledgerAnswer now platform entry))

/-- The ledger of a platform. -/
def answerLedger (now : Millis) (platform : String) (s : σ) : Response × σ :=
  match Store.Backend.ledger? platform s with
  | (.ok entry, s) => (ledgerResponse now platform entry, s)
  | (.error e, s) => (.storeUnavailable e.message, s)

/-- The response for a platform that has no extractor. -/
def noExtractor (platform : String) : Response :=
  .notFound ("no extractor configured for platform: " ++ platform)

/-- Starts a run of a platform under a new id. -/
def startRun (now : Millis) (id platform : String) (v : Service) : Response × Service :=
  match v.settings.extractor? platform with
  | none => (noExtractor platform, v)
  | some source =>
    match v.dispatcher.dispatch id source none now with
    | .error refusal => (.conflict refusal.message, v)
    | .ok dispatcher =>
      (.ofJson 202 (.ofFields [
        ("message", .string (platform ++ " content extraction started")),
        ("extractionId", .string id),
        ("status", .string RunStatus.running.name)]), { v with dispatcher })

/-- The response with the record of a run. -/
def runResponse (id : String) (record : Option RunRecord) : Response :=
  match record with
  | some record => .ofJson 200 record.toJson
  | none => .notFound ("run not found: " ++ id)

/-- The matches of a search. -/
def answerSearch (r : SearchRequest) (s : σ) : Response × σ :=
  match search r.query r.filters s with
  | (.error .blank, s) => (.badRequest Search.Fault.blank.message, s)
  | (.error (.store e), s) => (.storeUnavailable e.message, s)
  | (.ok page, s) => (.ofJson 200 (.ofFields [
      ("query", .string r.query),
      ("results", .array (page.items.map Asset.toJson)),
      ("total", .ofNat page.items.length),
      ("hasMore", .bool page.hasMore),
      ("filters", r.filters.toJson)]), s)

/-- The matches of a search among the assets of a platform's extractor. -/
def answerPlatformSearch (v : Service) (platform : String) (r : SearchRequest) (s : σ) :
    Response × σ :=
  match v.settings.extractor? platform with
  | none => (noExtractor platform, s)
  | some e => answerSearch { r with filters.source := some e.source } s

/-- An asset with the edges that touch it. -/
def answerAsset (id : String) (s : σ) : Response × σ :=
  match Store.Backend.asset? id s with
  | (.error e, s) => (.storeUnavailable e.message, s)
  | (.ok none, s) => (.notFound ("asset not found: " ++ id), s)
  | (.ok (some a), s) =>
    match Store.Backend.edges id s with
    | (.error e, s) => (.storeUnavailable e.message, s)
    | (.ok edges, s) => (.ofJson 200 (.ofFields [
        ("asset", a.toJson), ("relationships", .array (edges.map Edge.toJson))]), s)

/-- Takes an asset away and tells whether there was one. -/
def answerRemoval (now : Millis) (id : String) (s : σ) : Response × σ :=
  match Store.Backend.asset? id s with
  | (.error e, s) => (.storeUnavailable e.message, s)
  | (.ok asset, s) =>
    match Store.Backend.change now (.remove id) s with
    | (.error e, s) => (.storeUnavailable e.message, s)
    | (.ok (), s) => (.ofJson 200 (.ofFields [
        ("id", .string id), ("removed", .bool asset.isSome)]), s)

/-! ## Requests -/

/-- Reads the name in a path and goes on with it. -/
def withName {α : Type} (segment : String) (rest : α) (next : String → Response × α) :
    Response × α :=
  match segmentText? segment with
  | some name => next name
  | none => (.ofText 400 "Invalid URL", rest)

/-- Reads the search in a body and goes on with it. -/
def withSearch {α : Type} (req : Request) (rest : α) (next : SearchRequest → Response × α) :
    Response × α :=
  match SearchRequest.ofRequest req with
  | .ok r => next r
  | .error response => (response, rest)

/-- Answers a request to a route by a method that the route takes. -/
def Service.answer (now : Millis) (freshId : String) (req : Request) (v : Service) (s : σ) :
    Route → Response × Service × σ
  | .health => let (r, s) := answerHealth now s; (r, v, s)
  | .connection => let (r, s) := answerConnection now s; (r, v, s)
  | .ledger platform => withName platform (v, s) fun platform =>
    let (r, s) := answerLedger now platform s; (r, v, s)
  | .runs platform => withName platform (v, s) fun platform =>
    let (r, v) := startRun now freshId platform v; (r, v, s)
  | .platformSearch platform => withName platform (v, s) fun platform =>
    withSearch req (v, s) fun body =>
      let (r, s) := answerPlatformSearch v platform body s; (r, v, s)
  | .run id => withName id (v, s) fun id =>
    let v := if req.method = "DELETE" then { v with dispatcher := v.dispatcher.cancel id now } else v
    (runResponse id (v.dispatcher.registry.find? id), v, s)
  | .search => withSearch req (v, s) fun body =>
    let (r, s) := answerSearch body s; (r, v, s)
  | .asset id => withName id (v, s) fun id =>
    let (r, s) := if req.method = "DELETE" then answerRemoval now id s else answerAsset id s
    (r, v, s)

/-- The header by which every response allows all origins. -/
def anyOrigin : List (String × String) := [("access-control-allow-origin", "*")]

/-- The headers by which all methods and headers are allowed. -/
def anyUse : List (String × String) :=
  anyOrigin ++ [("access-control-allow-methods", "*"), ("access-control-allow-headers", "*")]

/-- The header that names the methods of a route. -/
def allowed (route : Option Route) : List (String × String) :=
  match route with
  | some route => [("allow", ",".intercalate route.methods)]
  | none => []

/-- Answers a request. A run that it starts gets the new id. -/
def Service.handle (now : Millis) (freshId : String) (req : Request) (v : Service) (s : σ) :
    Response × Service × σ :=
  let route := Route.ofTarget? req.target
  if req.method = "OPTIONS" then (⟨200, anyUse ++ allowed route, .empty⟩, v, s)
  else
    match route with
    | none => (⟨404, anyOrigin, .empty⟩, v, s)
    | some r =>
      if req.method ∈ r.methods then
        let (response, rest) := v.answer now freshId req s r
        let response := if req.method = "HEAD" then response.withoutBody else response
        (response.adding anyOrigin, rest)
      else (⟨405, anyOrigin ++ allowed route, .empty⟩, v, s)

end ContentGraph.Http
