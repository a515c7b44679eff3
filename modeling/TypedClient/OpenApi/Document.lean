import TypedClient.Api.Definition
import TypedClient.Api.Operation
import TypedClient.OpenApi.Schema

/-!
# OpenAPI documents

One set of types covers both major versions: what only version 2 has stands beside what only
version 3 has.

* `Document` is a document, `PathItem` what it says about one path, `OperationObject` what it says
  about one operation;
* `Document.parameter`, `Document.requestBody` and `Document.response` follow references to
  components; a reference is followed once.
-/

set_option autoImplicit false

namespace TypedClient.OpenApi

open TypedClient.Api (Method)

/-- The major version of a document. -/
inductive Version where
  /-- Swagger 2 -/
  | two
  /-- OpenAPI 3 -/
  | three
  deriving DecidableEq, Repr

/-- A parameter, or a reference to one. -/
structure ParameterObject where
  /-- A reference that stands for the whole parameter. -/
  reference : Option String
  /-- The name. -/
  name : String
  /-- The place, by the name the document gives it. -/
  place : String
  /-- What the document says about it. -/
  description : Option String
  /-- Whether a call has to give it. -/
  required : Bool
  /-- The schema of its values. -/
  schema : Option Schema
  /-- The name of its type, where the type is described without a schema. -/
  type : Option String
  /-- The schema of its items, where the type is described without a schema. -/
  items : Option Schema
  /-- The values of an enumeration, where the type is described without a schema. -/
  values : List Json

/-- The schema of the values of a parameter. -/
def ParameterObject.valueSchema (p : ParameterObject) : Schema :=
  match p.schema with
  | some schema => schema
  | none =>
    { Schema.ofKeywords
        { types := p.type.map fun type => [type], values := p.values, description := p.description }
      with items := p.items }

/-- A request body, or a reference to one. -/
structure RequestBody where
  /-- A reference that stands for the whole body. -/
  reference : Option String
  /-- The schema of each media type. -/
  content : Dict (Option Schema)
  /-- Whether a call has to give it. -/
  required : Bool

/-- A response, or a reference to one. -/
structure ResponseObject where
  /-- A reference that stands for the whole response. -/
  reference : Option String
  /-- What the document says about it. -/
  description : Option String
  /-- The schema of each media type. -/
  content : Dict (Option Schema)
  /-- The schema of every media type, in version 2. -/
  schema : Option Schema

/-- What a document says about an operation. -/
structure OperationObject where
  /-- The identifier. -/
  id : Option String
  /-- A short text about it. -/
  summary : Option String
  /-- A long text about it. -/
  description : Option String
  /-- The parameters, in order. -/
  parameters : List ParameterObject
  /-- The request body, in version 3. -/
  requestBody : Option RequestBody
  /-- The responses, by key. -/
  responses : Dict ResponseObject
  /-- The media types it reads, in version 2. -/
  consumes : List String
  /-- The media types it writes, in version 2. -/
  produces : List String

/-- What a document says about a path. -/
structure PathItem where
  /-- The operations, at most one for a method, in the order of `Method.all`. -/
  operations : List (Method × OperationObject)
  /-- Parameters of all of the operations. -/
  parameters : List ParameterObject

/-- Components that references lead to, in version 3. -/
structure Components where
  /-- Schemas of types. -/
  schemas : Dict Schema
  /-- Parameters. -/
  parameters : Dict ParameterObject
  /-- Request bodies. -/
  requestBodies : Dict RequestBody
  /-- Responses. -/
  responses : Dict ResponseObject

/-- A document. -/
structure Document where
  /-- The version it declares for OpenAPI. -/
  openapi : Option String
  /-- The version it declares for Swagger. -/
  swagger : Option String
  /-- The title of the API. -/
  title : String
  /-- The version of the API. -/
  apiVersion : String
  /-- The paths. -/
  paths : Dict PathItem
  /-- The components, in version 3. -/
  components : Option Components
  /-- Base URLs, in version 3. -/
  servers : List String
  /-- Schemas of types, in version 2. -/
  definitions : Dict Schema
  /-- Parameters that references lead to, in version 2. -/
  parameters : Dict ParameterObject
  /-- Responses that references lead to, in version 2. -/
  responses : Dict ResponseObject
  /-- The host, in version 2. -/
  host : Option String
  /-- The path all paths start with, in version 2. -/
  basePath : Option String
  /-- The URL schemes, in version 2. -/
  schemes : List String
  /-- The media types operations read, in version 2. -/
  consumes : List String
  /-- The media types operations write, in version 2. -/
  produces : List String

/-- The major version that the declared versions amount to. -/
def majorVersion (openapi swagger : Option String) : Except GenerationError Version :=
  match openapi, swagger with
  | some v, _ => if "3.".isPrefixOf v then .ok .three else .error (.unsupportedVersion v)
  | none, some v => if "2.".isPrefixOf v then .ok .two else .error (.unsupportedVersion v)
  | none, none => .error (.malformedSchema "document declares neither `openapi` nor `swagger`")

namespace Document

/-- The major version of a document. -/
def version (d : Document) : Except GenerationError Version := majorVersion d.openapi d.swagger

/-- The named schemas: the components, or if there are none the definitions. -/
def schemas (d : Document) : Dict Schema :=
  match d.components with
  | some components => if components.schemas.isEmpty then d.definitions else components.schemas
  | none => d.definitions

/-- The component a reference of the given kind leads to, looked up by name. -/
def follow {α : Type} (kind : Section) (find : String → Option α) (reference : String) :
    Except GenerationError α :=
  match (referredName? kind reference).bind find with
  | some found => .ok found
  | none => .error (.unresolvedReference reference)

/-- The parameter that a parameter stands for. -/
def parameter (d : Document) (p : ParameterObject) : Except GenerationError ParameterObject :=
  match p.reference with
  | none => .ok p
  | some reference =>
    follow .parameters
      (fun name => (d.components.bind fun c => Dict.get? c.parameters name) <|>
        Dict.get? d.parameters name) reference

/-- The request body that a request body stands for. -/
def requestBody (d : Document) (b : RequestBody) : Except GenerationError RequestBody :=
  match b.reference with
  | none => .ok b
  | some reference =>
    follow .requestBodies
      (fun name => d.components.bind fun c => Dict.get? c.requestBodies name) reference

/-- The response that a response stands for. -/
def response (d : Document) (r : ResponseObject) : Except GenerationError ResponseObject :=
  match r.reference with
  | none => .ok r
  | some reference =>
    follow .responses
      (fun name => (d.components.bind fun c => Dict.get? c.responses name) <|>
        Dict.get? d.responses name) reference

end Document

end TypedClient.OpenApi
