import TypedClient.Api.Operation
import TypedClient.Client.Options
import TypedClient.Client.Query
import TypedClient.Url.Parse

/-!
# Client configuration

A configuration is what options amount to: every setting has a value, the base URL has been read,
and the functions that options cannot carry are in place.

* `Config` is the configuration of a client;
* `baseUrl` reads a base URL and `Config.build` makes a configuration of options.
-/

set_option autoImplicit false

namespace TypedClient.Client

open TypedClient.Text

/-- What a header provider gets to know of a call. -/
structure CallInfo where
  /-- The id of the operation. -/
  operation : String
  /-- The method. -/
  method : Api.Method
  /-- The path, with placeholders in braces. -/
  path : String
  /-- The headers of the request that the call is made for. -/
  incoming : Headers

/-- A function that answers headers for a call, or says why it cannot. -/
abbrev HeaderProvider := CallInfo → Except String Headers

/-- A function that writes the arguments of a query. -/
abbrev QueryWriter := List (String × Json) → String

/-- The configuration of a client.  Times are in milliseconds. -/
structure Config where
  /-- The base URL of all operations. -/
  base : Url
  /-- Headers of every request. -/
  headers : Headers
  /-- Whether calls take their arguments sorted by place. -/
  fullRequest : Bool
  /-- Whether calls answer status and headers beside the body. -/
  fullResponse : Bool
  /-- Whether a status of 400 or above is an error. -/
  throwOnError : Bool
  /-- Whether responses are checked against the schema. -/
  validateResponse : Bool
  /-- How long to wait for the headers of a response. -/
  headersTimeout : Nat
  /-- How long to wait for the body of a response. -/
  bodyTimeout : Nat
  /-- How long to wait before a further attempt; there are none without it. -/
  retryDelay : Option Nat
  /-- How many further attempts there are. -/
  maxRetries : UInt32
  /-- The path that GraphQL requests are sent to. -/
  graphqlPath : String
  /-- The function that answers headers for a call. -/
  provider : Option HeaderProvider
  /-- The function that writes queries. -/
  queryWriter : QueryWriter

/-- Reads a base URL; it has to be a web address. -/
def baseUrl (text : String) : Outcome Url :=
  match Url.ofText text with
  | .ok url => .ok url
  | .error (.malformed e) => .error (.wrongOption "url" ("`" ++ text ++ "`: " ++ e.message))
  | .error .notWeb => .error (.wrongOption "url" ("`" ++ text ++ "` is not an http(s) URL"))

/-- The base URL of options, without white space around it. -/
def requiredUrl (o : ClientOptions) : Outcome Url :=
  match o.url.map trimText with
  | none | some "" => .error .urlRequired
  | some text => baseUrl text

/-- A time option, which must not be zero. -/
def timeout (name : String) (value : Option Nat) : Outcome Nat :=
  match value with
  | some 0 => .error (.wrongOption name "must be greater than zero")
  | some ms => .ok ms
  | none => .ok 30000

/-- The path that GraphQL requests are sent to; it starts with a slash. -/
def graphqlPathOf (o : ClientOptions) : Outcome String :=
  let path := o.graphqlPath.getD "/graphql"
  if path.toList.head? = some '/' then .ok path
  else .error (.wrongOption "graphqlPath" ("`" ++ path ++ "` must start with `/`"))

/-- The configuration that options amount to, with the given functions. -/
def Config.build (o : ClientOptions) (provider : Option HeaderProvider := none)
    (queryWriter : QueryWriter := queryText) : Outcome Config := do
  let base ← requiredUrl o
  let headersTimeout ← timeout "headersTimeout" o.headersTimeout
  let bodyTimeout ← timeout "bodyTimeout" o.bodyTimeout
  let graphqlPath ← graphqlPathOf o
  return {
    base, headersTimeout, bodyTimeout, graphqlPath, provider, queryWriter
    headers := o.headers
    fullRequest := o.fullRequest
    fullResponse := o.fullResponse
    throwOnError := o.throwOnError.getD true
    validateResponse := o.validateResponse.getD true
    retryDelay := o.retryTimeoutMs
    maxRetries := o.maxRetries.getD 3 }

/-- The configuration with another base URL. -/
def Config.withBaseUrl (c : Config) (text : String) : Outcome Config := do
  return { c with base := ← baseUrl (trimText text) }

/-- The configuration with other headers. -/
def Config.withHeaders (c : Config) (headers : Headers) : Config := { c with headers }

end TypedClient.Client
