import TypedClient.Api.Operation

/-!
# API definitions

What a client is made from: the operations of an API and the graph of their types, whatever kind of
schema they were read from.

* `Definition.operation?` finds an operation by its id;
* `Definition.routes` lists method and path of every operation;
* `GenerationError` says what can go wrong between the text of a schema and the emitted files.
-/

set_option autoImplicit false

namespace TypedClient.Api

open TypedClient.Types (TypeGraph)

/-- The kind of schema a definition was read from. -/
inductive SchemaKind where
  /-- An OpenAPI or Swagger document. -/
  | openApi
  /-- The result of a GraphQL introspection query. -/
  | graphql
  deriving DecidableEq, Repr

/-- The name of a kind of schema. -/
def SchemaKind.text : SchemaKind → String
  | .openApi => "openapi"
  | .graphql => "graphql"

/-- The names of the root types of a GraphQL schema. -/
structure GraphqlRoots where
  /-- The type of queries. -/
  query : Option String
  /-- The type of mutations. -/
  mutation : Option String
  /-- The type of subscriptions. -/
  subscription : Option String

/-- Where an operation is found. -/
structure Route where
  /-- The path, with placeholders in braces. -/
  path : String
  /-- The method. -/
  method : Method

/-- The operations of an API and their types. -/
structure Definition where
  /-- The kind of schema the definition was read from. -/
  kind : SchemaKind
  /-- The title of the API. -/
  title : String
  /-- The version of the API. -/
  version : String
  /-- Base URLs, the preferred one first. -/
  servers : List String
  /-- The operations, in order. -/
  operations : List Operation
  /-- The types that the operations refer to. -/
  types : TypeGraph
  /-- The root types, for a GraphQL schema. -/
  graphql : Option GraphqlRoots

namespace Definition

/-- The operation with the given id. -/
def operation? (api : Definition) (id : String) : Option Operation :=
  api.operations.find? (·.id == id)

/-- The route of every operation, by id. -/
def routes (api : Definition) : Dict Route :=
  Dict.ofList (api.operations.map fun op => (op.id, ⟨op.path, op.method⟩))

end Definition

end TypedClient.Api

namespace TypedClient

/-! ## Errors of reading and generating -/

/-- A reason why no definition or no artifact was made. -/
inductive GenerationError where
  /-- The schema is malformed. -/
  | malformedSchema (detail : String)
  /-- The schema is of a version that is not read. -/
  | unsupportedVersion (version : String)
  /-- The document may be a schema of either kind. -/
  | ambiguousKind
  /-- A reference leads nowhere. -/
  | unresolvedReference (reference : String)
  /-- Names of operations collide. -/
  | collidingNames (names : List String)
  /-- Something else, in words. -/
  | failed (detail : String)
  /-- A file could not be read or written. -/
  | io (detail : String)
  /-- A JSON text is malformed. -/
  | json (detail : String)
  /-- A YAML text is malformed. -/
  | yaml (detail : String)
  deriving DecidableEq

/-- The wording of an error. -/
def GenerationError.message : GenerationError → String
  | .malformedSchema detail => "Failed to parse schema: " ++ detail
  | .unsupportedVersion version => "Unsupported schema version: " ++ version
  | .ambiguousKind => "Cannot tell whether the document is an OpenAPI or a GraphQL schema"
  | .unresolvedReference reference => "Unresolved reference: " ++ reference
  | .collidingNames names =>
    "Operation names collide and cannot be disambiguated: " ++ String.intercalate ", " names
  | .failed detail => "Generation error: " ++ detail
  | .io detail => "IO error: " ++ detail
  | .json detail => "JSON error: " ++ detail
  | .yaml detail => "YAML error: " ++ detail

end TypedClient
