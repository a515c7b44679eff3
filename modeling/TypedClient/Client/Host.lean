import TypedClient.Client.Config
import TypedClient.Client.Graphql
import TypedClient.Document

/-!
# Clients in a host

A client is made of options.  Its schema is a file that the options name, or a document they give
the address of; a file comes first.  A host makes its clients once and hands them to every request
it serves.  What it hands out are references: a change made through one of them shows through all
others.

* `loadDefinition` finds the schema of options, and `openApiClient` and `graphqlClient` make
  clients;
* `AnyClient` is a client of either kind and `Host` the clients of a host, told by number;
* `RequestContext` is a request that a host serves, with the clients registered for it;
* `Plugin` registers a client under a name.
-/

set_option autoImplicit false

namespace TypedClient.Client

open TypedClient.Api

/-! ## Making clients -/

/-- Where schemas come from. -/
structure Sources where
  /-- The text of a file, or why it cannot be read. -/
  file : String → Except String String
  /-- The text of a document at an address, asked for with the given headers. -/
  download : String → Headers → Outcome String

/-- A schema that was not loaded as an error. -/
def loadError (place : String) (e : GenerationError) : ClientError :=
  .caused ("failed to load schema " ++ place) e.message

/-- The definition that options name, if they name one. -/
def loadDefinition (sources : Sources) (o : ClientOptions) (kind : SchemaKind) :
    Outcome (Option Definition) :=
  match o.path, o.schemaUrl with
  | some path, _ => do
    return some (← (normalizeFile path (sources.file path) (some kind)).mapError (loadError path))
  | none, some url => do
    let text ← sources.download url o.headers
    return some (← (normalizeText text (some kind)).mapError (loadError url))
  | none, none => return none

/-- A client for the operations of a definition. -/
structure OpenApiClient where
  /-- The definition. -/
  api : Definition
  /-- The configuration. -/
  config : Config

/-- A client for GraphQL requests. -/
structure GraphqlClient where
  /-- The definition of the schema, if it is known. -/
  schema : Option Definition
  /-- The configuration. -/
  config : Config

/-- Makes a client for operations.  Options are looked at before the schema is loaded. -/
def openApiClient (sources : Sources) (o : ClientOptions) (provider : Option HeaderProvider)
    (queryWriter : QueryWriter) : Outcome OpenApiClient := do
  let config ← Config.build o provider queryWriter
  match ← loadDefinition sources o .openApi with
  | some api => return ⟨api, config⟩
  | none => throw (.wrongOption "path" "either path or schemaUrl is required")

/-- Makes a client for GraphQL requests.  A schema is loaded only if one is named. -/
def graphqlClient (sources : Sources) (o : ClientOptions) (provider : Option HeaderProvider)
    (queryWriter : QueryWriter) : Outcome GraphqlClient := do
  let config ← Config.build o provider queryWriter
  return ⟨← loadDefinition sources o .graphql, config⟩

/-! ## Hosts -/

/-- A client of either kind. -/
inductive AnyClient where
  /-- A client for operations. -/
  | openApi (client : OpenApiClient)
  /-- A client for GraphQL requests. -/
  | graphql (client : GraphqlClient)

namespace AnyClient

/-- The configuration of a client. -/
def config : AnyClient → Config
  | openApi client => client.config
  | graphql client => client.config

/-- The client with another configuration. -/
def withConfig (config : Config) : AnyClient → AnyClient
  | openApi client => openApi { client with config }
  | graphql client => graphql { client with config }

/-- The kind of schema the client is for. -/
def kind : AnyClient → SchemaKind
  | openApi _ => .openApi
  | graphql _ => .graphql

/-- The client with another base URL. -/
def withBaseUrl (c : AnyClient) (text : String) : Outcome AnyClient := do
  return c.withConfig (← c.config.withBaseUrl text)

/-- The client with other headers. -/
def withHeaders (c : AnyClient) (headers : Headers) : AnyClient :=
  c.withConfig (c.config.withHeaders headers)

end AnyClient

/-- The number of a client of a host. -/
abbrev ClientId := Nat

/-- The clients of a host. -/
structure Host where
  /-- The clients, by number. -/
  clients : List AnyClient

namespace Host

/-- The client of a number. -/
def client? (h : Host) (id : ClientId) : Option AnyClient := h.clients[id]?

/-- The host with a client replaced. -/
def replace (h : Host) (id : ClientId) (c : AnyClient) : Host := ⟨h.clients.set id c⟩

/-- Points a client to another base URL.  If that is refused, nothing changes. -/
def setBaseUrl (h : Host) (id : ClientId) (text : String) : Outcome Unit × Host :=
  match h.client? id with
  | none => (.ok (), h)
  | some client =>
    match client.withBaseUrl text with
    | .ok client => (.ok (), h.replace id client)
    | .error e => (.error e, h)

/-- Replaces the headers that a client sends with every request. -/
def setHeaders (h : Host) (id : ClientId) (headers : Headers) : Host :=
  match h.client? id with
  | some client => h.replace id (client.withHeaders headers)
  | none => h

end Host

/-! ## Contexts -/

/-- A request that a host serves. -/
structure RequestContext where
  /-- Its headers. -/
  headers : Headers
  /-- Headers that follow it through a system. -/
  telemetry : Headers
  /-- The clients registered for it, by name. -/
  clients : Dict ClientId

namespace RequestContext

/-- A request without headers and clients. -/
def empty : RequestContext := ⟨.empty, .empty, []⟩

/-- The request with a header. -/
def withHeader (r : RequestContext) (name value : String) : RequestContext :=
  { r with headers := r.headers.insert name value }

/-- The request with a header that follows it. -/
def withTelemetry (r : RequestContext) (name value : String) : RequestContext :=
  { r with telemetry := r.telemetry.insert name value }

/-- The client of a name. -/
def client? (r : RequestContext) (h : Host) (name : String) : Option AnyClient :=
  (Dict.get? r.clients name).bind h.client?

/-- What a caller passes, made on behalf of this request. -/
def callInput (r : RequestContext) (i : CallInput) : CallInput :=
  { i with incoming := r.headers, telemetry := r.telemetry }

/-- What a caller passes for GraphQL, made on behalf of this request. -/
def graphqlInput (r : RequestContext) (i : GraphqlInput) : GraphqlInput :=
  { i with incoming := r.headers, telemetry := r.telemetry }

end RequestContext

/-- A client under a name. -/
structure Plugin where
  /-- The name. -/
  name : String
  /-- The number of the client. -/
  client : ClientId

/-- Registers the client for a request; one of the same name is replaced. -/
def Plugin.register (p : Plugin) (r : RequestContext) : RequestContext :=
  { r with clients := Dict.insert r.clients p.name p.client }

end TypedClient.Client
