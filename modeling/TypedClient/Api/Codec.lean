import TypedClient.Api.Definition
import TypedClient.Types.Codec

/-!
# API definitions as values

`Definition.encode` writes a definition and `Definition.decode` reads it back.  A description, a
summary, a declared identifier, the content of a body and the root types are left out when there
are none.  Members stand in the order of the fields.
-/

set_option autoImplicit false

namespace TypedClient.Api

open Json TypedClient.Types

/-- A method as a value. -/
def Method.encode (m : Method) : Json := .string m.text

/-- Reads a method. -/
def Method.decode : Json → Decoded Method := choice (Method.all.map fun m => (m.text, m))

/-- The places of arguments by name. -/
def Location.options : List (String × Location) :=
  [("path", .path), ("query", .query), ("header", .header), ("body", .body)]

/-- The name of the place of an argument. -/
def Location.text : Location → String
  | .path => "path"
  | .query => "query"
  | .header => "header"
  | .body => "body"

/-- A parameter as a value. -/
def Parameter.encode (p : Parameter) : Json :=
  .object ([("name", .string p.name), ("location", .string p.location.text),
    ("required", .bool p.required), ("ty", .ofNat p.type)] ++
    given "description" .string p.description)

/-- Reads a parameter. -/
def Parameter.decode (value : Json) : Decoded Parameter := do
  let record ← value.fields "Parameter" ["name", "location", "required", "ty", "description"] false
  return {
    name := ← record.required "name" fun part => text part.1
    location := ← record.required "location" fun part => choice Location.options part.1
    required := ← record.required "required" fun part => flag part.1
    type := ← record.required "ty" fun part => decodeId part.1
    description := ← record.optional "description" fun part => text part.1 }

/-- The kinds of bodies by name. -/
def ContentKind.options : List (String × ContentKind) :=
  [("json", .json), ("multipart", .multipart), ("form-url-encoded", .formUrlEncoded),
    ("other", .other)]

/-- The name of a kind of body. -/
def ContentKind.text : ContentKind → String
  | .json => "json"
  | .multipart => "multipart"
  | .formUrlEncoded => "form-url-encoded"
  | .other => "other"

/-- The content of a body as a value. -/
def BodyContent.encode (content : BodyContent) : Json :=
  .object [("kind", .string content.kind.text), ("media_type", .string content.mediaType)]

/-- Reads the content of a body. -/
def BodyContent.decode (value : Json) : Decoded BodyContent := do
  let record ← value.fields "BodyContent" ["kind", "media_type"] false
  return {
    kind := ← record.required "kind" fun part => choice ContentKind.options part.1
    mediaType := ← record.required "media_type" fun part => text part.1 }

/-- A response key as a value. -/
def StatusKey.encode : StatusKey → Json
  | .code status => .object [("code", .ofNat status)]
  | .range digit => .object [("range", .ofNat digit)]
  | .default => .string "default"

/-- Reads a response key. -/
def StatusKey.decode (value : Json) : Decoded StatusKey := do
  match ← value.tagged with
  | ("code", some part) => return .code (← natural 16 part.1)
  | ("range", some part) => return .range (← natural 8 part.1)
  | ("default", none) | ("default", some ⟨.null, _⟩) => return .default
  | (tag, _) => throw (.unknownVariant tag ["code", "range", "default"])

/-- One kind of content as a value. -/
def Media.encode (media : Media) : Json :=
  .object ([("media_type", .string media.mediaType)] ++ given "ty" .ofNat media.type)

/-- Reads one kind of content. -/
def Media.decode (value : Json) : Decoded Media := do
  let record ← value.fields "Media" ["media_type", "ty"] false
  return {
    mediaType := ← record.required "media_type" fun part => text part.1
    type := ← record.optional "ty" fun part => decodeId part.1 }

/-- A response as a value. -/
def Response.encode (response : Response) : Json :=
  .object ([("status", response.status.encode)] ++
    given "description" .string response.description ++
    [("content", ofList Media.encode response.content)])

/-- Reads a response. -/
def Response.decode (value : Json) : Decoded Response := do
  let record ← value.fields "Response" ["status", "description", "content"] false
  return {
    status := ← record.required "status" fun part => StatusKey.decode part.1
    description := ← record.optional "description" fun part => text part.1
    content := ← record.required "content" fun part => Json.list Media.decode part.1 }

/-- An operation as a value. -/
def Operation.encode (op : Operation) : Json :=
  .object ([("id", .string op.id)] ++ given "operation_id" .string op.declaredId ++
    [("method", op.method.encode), ("path", .string op.path)] ++
    given "summary" .string op.summary ++
    [("parameters", ofList Parameter.encode op.parameters)] ++
    given "content_type" BodyContent.encode op.content ++
    [("responses", ofList Response.encode op.responses)])

/-- The fields of an operation. -/
def Operation.fieldNames : List String :=
  ["id", "operation_id", "method", "path", "summary", "parameters", "content_type", "responses"]

/-- Reads an operation. -/
def Operation.decode (value : Json) : Decoded Operation := do
  let record ← value.fields "Operation" Operation.fieldNames false
  return {
    id := ← record.required "id" fun part => text part.1
    declaredId := ← record.optional "operation_id" fun part => text part.1
    method := ← record.required "method" fun part => Method.decode part.1
    path := ← record.required "path" fun part => text part.1
    summary := ← record.optional "summary" fun part => text part.1
    parameters := ← record.required "parameters" fun part => Json.list Parameter.decode part.1
    content := ← record.optional "content_type" fun part => BodyContent.decode part.1
    responses := ← record.required "responses" fun part => Json.list Response.decode part.1 }

/-- The root types as a value. -/
def GraphqlRoots.encode (roots : GraphqlRoots) : Json :=
  .object [("query", ofOption .string roots.query),
    ("mutation", ofOption .string roots.mutation),
    ("subscription", ofOption .string roots.subscription)]

/-- Reads the root types. -/
def GraphqlRoots.decode (value : Json) : Decoded GraphqlRoots := do
  let record ← value.fields "GraphqlRoots" ["query", "mutation", "subscription"] false
  return {
    query := ← record.optional "query" fun part => text part.1
    mutation := ← record.optional "mutation" fun part => text part.1
    subscription := ← record.optional "subscription" fun part => text part.1 }

/-- A route as a value. -/
def Route.encode (route : Route) : Json :=
  .object [("path", .string route.path), ("method", route.method.encode)]

/-- The kinds of schemas by name. -/
def SchemaKind.options : List (String × SchemaKind) :=
  [("openapi", .openApi), ("graphql", .graphql)]

/-- A definition as a value. -/
def Definition.encode (api : Definition) : Json :=
  .object ([("kind", .string api.kind.text), ("title", .string api.title),
    ("version", .string api.version), ("servers", ofTexts api.servers),
    ("operations", ofList Operation.encode api.operations), ("types", api.types.encode)] ++
    given "graphql" GraphqlRoots.encode api.graphql)

/-- Reads a definition. -/
def Definition.decode (value : Json) : Decoded Definition := do
  let record ← value.fields "Definition"
    ["kind", "title", "version", "servers", "operations", "types", "graphql"] false
  return {
    kind := ← record.required "kind" fun part => choice SchemaKind.options part.1
    title := ← record.required "title" fun part => text part.1
    version := ← record.required "version" fun part => text part.1
    servers := ← record.required "servers" fun part => Json.list text part.1
    operations := ← record.required "operations" fun part => Json.list Operation.decode part.1
    types := ← record.required "types" fun part => TypeGraph.decode part.1
    graphql := ← record.optional "graphql" fun part => GraphqlRoots.decode part.1 }

end TypedClient.Api
