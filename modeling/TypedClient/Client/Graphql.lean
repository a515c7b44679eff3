import TypedClient.Client.Call

/-!
# GraphQL requests

A GraphQL request is sent as it is: what it asks for is not checked against a schema.  The answer is
the data of the response, unless the response reports errors.

* `graphqlRequest` makes the request and `graphqlAnswer` reads the response;
* `graphql` sends a request.
-/

set_option autoImplicit false

namespace TypedClient.Client

open TypedClient.Text

/-- What a caller passes for one GraphQL request. -/
structure GraphqlInput where
  /-- The text of the request. -/
  query : String
  /-- The values of the variables. -/
  variableValues : Option Json := none
  /-- Headers that come before all others. -/
  headers : Headers := .empty
  /-- The headers of the request that this one is made for. -/
  incoming : Headers := .empty
  /-- Headers that follow a request through a system. -/
  telemetry : Headers := .empty

/-- What a request sends. -/
def GraphqlInput.payload (i : GraphqlInput) : Json :=
  .ofMembers (("query", .string i.query) :: Json.given "variables" id i.variableValues)

/-- What a header provider gets to know of a GraphQL request. -/
def graphqlInfo (c : Config) (i : GraphqlInput) : CallInfo :=
  ⟨"graphql", .post, c.graphqlPath, i.incoming⟩

/-- The segments of a path. -/
def segmentsOf (path : String) : List String :=
  ((splitOn '/' path.toList).filter (!·.isEmpty)).map String.ofList

/-- The request that carries a GraphQL request. -/
def graphqlRequest (c : Config) (defaults : Headers) (i : GraphqlInput) : Outcome Request := do
  let headers ← resolveHeaders c defaults (graphqlInfo c i) i.telemetry .empty i.headers
  let url := addressOf c.base (segmentsOf c.graphqlPath) ""
  return c.request .post url headers (.json i.payload)

/-- The errors that the body of a response reports. -/
def reportedErrors (body : Json) : List Json :=
  match body.get? "errors" with
  | some (.array errors) => errors
  | _ => []

/-- The data of a response.  Reported errors come before the status. -/
def graphqlAnswer (r : Response) : Outcome Json :=
  let body := decodeBody r
  match reportedErrors body with
  | [] =>
    if 400 ≤ r.status then
      .error (.failed ("graphql request failed with status " ++ toString r.status) (some r.status)
        (some body) none)
    else .ok ((body.get? "data").getD .null)
  | errors =>
    .error (.failed ("graphql request returned " ++ toString errors.length ++ " error(s)")
      (some r.status) (some (.array errors)) none)

/-- Sends a GraphQL request. -/
def graphql {σ : Type} (c : Config) (t : Transport σ) (i : GraphqlInput) (s : σ) :
    Outcome Json × σ :=
  match graphqlRequest c t.defaults i with
  | .error e => (.error e, s)
  | .ok request =>
    match sendWithRetry t c request s with
    | (.error e, s) => (.error e, s)
    | (.ok response, s) => (graphqlAnswer response, s)

end TypedClient.Client
