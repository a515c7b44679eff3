import TypedClient.Api.Definition
import TypedClient.Client.Binding
import TypedClient.Client.Transport
import TypedClient.Client.Validation

/-!
# Calls

A call goes through three stages.  `prepare` makes the request and fails before anything is sent;
`sendWithRetry` sends it; `receive` turns the response into what the caller gets.

* `resolveHeaders` lays the sources of headers on top of each other;
* `addressOf` appends segments and a query to the base URL;
* `invoke` is the whole call, and `Output.read` reads the body of what it answers.
-/

set_option autoImplicit false

namespace TypedClient.Client

open TypedClient.Api

/-! ## Requests -/

/-- The headers of a call.  From the lowest to the highest they come from the transport, from the
configuration, from telemetry, from the header provider, from parameters and from the caller. -/
def resolveHeaders (c : Config) (defaults : Headers) (info : CallInfo)
    (telemetry parameters explicit : Headers) : Outcome Headers := do
  let provided ←
    match c.provider with
    | none => pure Headers.empty
    | some provider =>
      (provider info).mapError (.caused ("header provider failed for " ++ info.operation))
  return defaults.overlay c.headers |>.overlay telemetry |>.overlay provided
    |>.overlay parameters |>.overlay explicit

/-- The base URL with segments behind its path, given as plain text, and with the query. -/
def addressOf (base : Url) (segments : List String) (query : String) : Url :=
  (base.withSegments segments).withQuery (if query.isEmpty then none else some query)

/-- A request of a configuration. -/
def Config.request (c : Config) (method : Method) (url : Url) (headers : Headers) (body : Body) :
    Request :=
  ⟨method, url, headers, body, c.headersTimeout, c.bodyTimeout⟩

/-- What a header provider gets to know of the call of an operation. -/
def callInfo (op : Operation) (input : CallInput) : CallInfo :=
  ⟨op.id, op.method, op.path, input.incoming⟩

/-- The request that calls an operation. -/
def requestFor (api : Definition) (c : Config) (defaults : Headers) (op : Operation)
    (input : CallInput) : Outcome Request := do
  let bound ← bind op api.types input c.fullRequest
  let headers ←
    resolveHeaders c defaults (callInfo op input) input.telemetry bound.headers input.headers
  let url := addressOf c.base bound.segments (c.queryWriter bound.query)
  return c.request op.method url headers bound.body

/-- The operation of an id, and the request that calls it. -/
def prepare (api : Definition) (c : Config) (defaults : Headers) (id : String)
    (input : CallInput) : Outcome (Operation × Request) :=
  match api.operation? id with
  | none => .error (.plain ("unknown operation `" ++ id ++ "`"))
  | some op => do return (op, ← requestFor api c defaults op input)

/-! ## Responses -/

/-- What a call answers. -/
inductive Output where
  /-- The body of the response. -/
  | body (value : Json)
  /-- Status, headers and body of the response. -/
  | full (status : Nat) (headers : Headers) (value : Json)

namespace Output

/-- The body. -/
def value : Output → Json
  | body value | full _ _ value => value

/-- The status, if the call answers it. -/
def status? : Output → Option Nat
  | body _ => none
  | full status _ _ => some status

/-- The answer as a value. -/
def encode : Output → Json
  | body value => value
  | full status headers value =>
    .ofMembers [("statusCode", .ofNat status), ("headers", headers.encode), ("body", value)]

end Output

/-- Reads a value as the caller asks for it. -/
def readAs {α : Type} (what : String) (decode : Json → Decoded α) (value : Json) : Outcome α :=
  (decode value).mapError fun e =>
    .caused (what ++ " does not match the requested type") e.message

/-- Reads the body as the caller asks for it. -/
def Output.read {α : Type} (decode : Json → Decoded α) (o : Output) : Outcome α :=
  readAs "response body" decode o.value

/-- The error for a status of 400 or above. -/
def statusError (status : Nat) (body : Json) : ClientError :=
  .failed ("request failed with status " ++ toString status) (some status) (some body) none

/-- The body of a response, checked if the configuration says so. -/
def readBody (c : Config) (api : Definition) (op : Operation) (r : Response) : Outcome Json :=
  if c.validateResponse then validate op api.types r else .ok (decodeBody r)

/-- What a call answers for a response. -/
def receive (c : Config) (api : Definition) (op : Operation) (r : Response) : Outcome Output :=
  if 400 ≤ r.status ∧ c.throwOnError then .error (statusError r.status (decodeBody r))
  else do
    let body ← readBody c api op r
    if c.fullResponse || 400 ≤ r.status then return .full r.status r.headers body
    else return .body body

/-! ## Calls -/

/-- Calls an operation. -/
def invoke {σ : Type} (api : Definition) (c : Config) (t : Transport σ) (id : String)
    (input : CallInput) (s : σ) : Outcome Output × σ :=
  match prepare api c t.defaults id input with
  | .error e => (.error e, s)
  | .ok (op, request) =>
    match sendWithRetry t c request s with
    | (.error e, s) => (.error e, s)
    | (.ok response, s) => (receive c api op response, s)

end TypedClient.Client
