import ContentGraph.Json.Value

/-!
# Requests and responses

A response has a status, headers and a body, which is empty, JSON or plain text. A failure that the
service itself finds is a JSON object with a code and a message.
-/

namespace ContentGraph.Http

/-- A request. -/
structure Request where
  method : String
  target : String
  /-- What the header on the type of the body says. -/
  contentType : Option String := none
  body : List UInt8 := []
deriving Repr, DecidableEq

/-- The body of a response. -/
inductive Body
  | empty
  | json (value : Json)
  | text (s : String)
deriving Repr, BEq

/-- A response. -/
structure Response where
  status : Nat
  headers : List (String × String) := []
  body : Body := .empty
deriving Repr, BEq

namespace Response

/-- The value of a header, whose name is written in small letters. -/
def header? (name : String) (r : Response) : Option String := r.headers.lookup name

/-- A response with a JSON body. -/
def ofJson (status : Nat) (value : Json) : Response :=
  ⟨status, [("content-type", "application/json")], .json value⟩

/-- A response in plain text, as it is given to requests that are not understood. -/
def ofText (status : Nat) (s : String) : Response :=
  ⟨status, [("content-type", "text/plain; charset=utf-8")], .text s⟩

/-- The body of a failure. -/
def failureBody (code message : String) : Json :=
  .ofFields [("error", .ofFields [("code", .string code), ("message", .string message)])]

/-- A failure that the service finds. -/
def failure (status : Nat) (code message : String) : Response :=
  .ofJson status (failureBody code message)

/-- A failure of a request that asks for nothing sensible. -/
def badRequest (message : String) : Response := .failure 400 "bad_request" message

/-- A failure of a request for something that is not there. -/
def notFound (message : String) : Response := .failure 404 "not_found" message

/-- A failure of a request that does not go with what is in progress. -/
def conflict (message : String) : Response := .failure 409 "conflict" message

/-- A failure of the store. -/
def storeUnavailable (message : String) : Response := .failure 503 "store_unavailable" message

/-- The same response without its body. -/
def withoutBody (r : Response) : Response := { r with body := .empty }

/-- The same response with further headers. -/
def adding (headers : List (String × String)) (r : Response) : Response :=
  { r with headers := r.headers ++ headers }

end Response

end ContentGraph.Http
