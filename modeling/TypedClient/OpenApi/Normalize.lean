import TypedClient.Api.Definition
import TypedClient.Api.PathTemplate
import TypedClient.Naming.OperationName
import TypedClient.OpenApi.Document
import TypedClient.OpenApi.SchemaTypes

/-!
# Definitions of OpenAPI documents

Every operation of a document becomes an operation of the definition, and its schemas become nodes
of the type graph.

* `mergeParameters` joins the parameters of a path and of an operation;
* `buildOperation` makes an operation;
* `Document.toDefinition` makes the definition of a document.
-/

set_option autoImplicit false

namespace TypedClient.OpenApi

open TypedClient.Api TypedClient.Naming TypedClient.Text

/-! ## Parameters -/

/-- The parameters with one more, which replaces one of the same name and place. -/
def overlayParameter (merged : List ParameterObject) (p : ParameterObject) :
    List ParameterObject :=
  match merged with
  | [] => [p]
  | first :: rest =>
    if first.name = p.name ∧ first.place = p.place then p :: rest
    else first :: overlayParameter rest p

/-- The parameters of a path with those of an operation, references followed. -/
def mergeParameters (d : Document) (ofPath ofOperation : List ParameterObject) :
    Except GenerationError (List ParameterObject) := do
  return (← (ofPath ++ ofOperation).mapM d.parameter).foldl overlayParameter []

/-- The place that a document's name for it stands for, if it is one of the URL or the head of a
request. -/
def placeOf? : String → Option Location
  | "path" => some .path
  | "query" => some .query
  | "header" => some .header
  | _ => none

/-- What a request body consists of, and the parameter that carries it. -/
structure Body where
  /-- What the body consists of. -/
  content : BodyContent
  /-- The parameter. -/
  parameter : Parameter

/-- The parameter that carries a request body. -/
def bodyParameter (type : Types.TypeId) (required : Bool) : Parameter :=
  ⟨"body", .body, required, type, none⟩

/-- The list of an operation, or if it is empty that of the document. -/
def orElse (own shared : List String) : List String := if own.isEmpty then shared else own

/-- The parameters of an operation, sorted by what they become. -/
structure Sorted where
  /-- The parameters of path, query and head. -/
  parameters : List Parameter
  /-- The fields of a form. -/
  form : List ParameterObject
  /-- The body. -/
  body : Option Body

/-- Takes up one parameter of the document.  A parameter of a place that is not known is left
out. -/
def sortParameter (d : Document) (op : OperationObject) (sorted : Sorted) (p : ParameterObject) :
    Build Sorted := do
  match placeOf? p.place with
  | some location =>
    let type ← mapSchema d.schemas p.valueSchema
    let parameter : Parameter :=
      ⟨p.name, location, p.required || location = .path, type, p.description⟩
    return { sorted with parameters := sorted.parameters ++ [parameter] }
  | none =>
    if p.place = "body" then
      let type ← mapSchema d.schemas p.valueSchema
      let read := orElse op.consumes d.consumes
      let mediaType := (read.find? fun m => ContentKind.classify m = .json).getD jsonMedia
      return { sorted with body := some ⟨⟨.json, mediaType⟩, bodyParameter type p.required⟩ }
    else if p.place = "formData" then return { sorted with form := sorted.form ++ [p] }
    else return sorted

/-- Adds a parameter for every placeholder of the path that no parameter declares. -/
def addPlaceholders (d : Document) (path : String) (parameters : List Parameter) :
    Build (List Parameter) :=
  (placeholders path).foldlM (fun parameters name => do
    if parameters.any fun p => p.location = .path && p.name == name then return parameters
    else
      let type ← mapSchema d.schemas (Schema.ofKeywords { types := some ["string"] })
      return parameters ++ [⟨name, .path, true, type, none⟩]) parameters

/-! ## Bodies -/

/-- The body that form fields make up: one object, in several parts if a field is a file or the
operation reads such forms. -/
def formBody (d : Document) (op : OperationObject) (form : List ParameterObject) : Build Body := do
  let isMultipart :=
    form.any (·.type == some "file") ||
      (orElse op.consumes d.consumes).any (sameIgnoringCase · multipartForm)
  let required := (form.filter (·.required)).map ParameterObject.name
  let schema : Schema :=
    { Schema.ofKeywords { types := some ["object"], required } with
      properties := Dict.ofList (form.map fun p => (p.name, p.valueSchema)) }
  let type ← mapSchema d.schemas schema
  let mediaType := if isMultipart then multipartForm else urlEncodedForm
  return ⟨⟨ContentKind.classify mediaType, mediaType⟩, bodyParameter type (form.any (·.required))⟩

/-- The media type a client uses among several: JSON, else a form in several parts, else the
first. -/
def preferred? {α : Type} (content : Dict α) : Option (String × α) :=
  content.find? (fun entry => ContentKind.classify entry.1 = .json) <|>
    content.find? (fun entry => ContentKind.classify entry.1 = .multipart) <|> content.head?

/-- The body that a request body makes, if it has any content. -/
def requestedBody (d : Document) (body : RequestBody) : Build (Option Body) := do
  let body ← d.requestBody body
  match preferred? body.content with
  | none => return none
  | some (mediaType, schema) =>
    let type ← mapSchema d.schemas (schema.getD (Schema.ofKeywords { }))
    return some
      ⟨⟨ContentKind.classify mediaType, mediaType⟩, bodyParameter type body.required⟩

/-! ## Responses -/

/-- The content of a response. -/
def responseContent (d : Document) (version : Version) (op : OperationObject)
    (response : ResponseObject) : Build (List Media) :=
  match version with
  | .three => response.content.mapM fun (mediaType, schema) => do
    match schema with
    | some schema => return ⟨mediaType, some (← mapSchema d.schemas schema)⟩
    | none => return ⟨mediaType, none⟩
  | .two => do
    match response.schema with
    | none => return []
    | some schema =>
      let type ← mapSchema d.schemas schema
      let written := orElse (orElse op.produces d.produces) [jsonMedia]
      return written.map fun mediaType => ⟨mediaType, some type⟩

/-- The responses of an operation.  Keys that are no response keys are left out. -/
def buildResponses (d : Document) (version : Version) (op : OperationObject) :
    Build (List Response) := do
  let responses ← op.responses.mapM fun (key, response) => do
    match StatusKey.ofText? key with
    | none => return none
    | some status =>
      let response ← d.response response
      let content ← responseContent d version op response
      return some (⟨status, response.description, content⟩ : Response)
  return responses.filterMap id

/-! ## Operations -/

/-- Makes an operation, still without its id. -/
def buildOperation (d : Document) (version : Version) (path : String) (item : PathItem)
    (method : Method) (op : OperationObject) : Build Operation := do
  let merged ← mergeParameters d item.parameters op.parameters
  let sorted ← merged.foldlM (sortParameter d op) ⟨[], [], none⟩
  let parameters ← addPlaceholders d path sorted.parameters
  let form ← if sorted.form.isEmpty then pure none else some <$> formBody d op sorted.form
  let requested ←
    match version, op.requestBody with
    | .three, some body => requestedBody d body
    | _, _ => pure none
  let body := requested <|> form <|> sorted.body
  let responses ← buildResponses d version op
  return {
    id := ""
    declaredId := op.id
    method, path
    summary := op.summary <|> op.description
    parameters := parameters ++ (body.map Body.parameter).toList
    content := body.map Body.content
    responses }

/-- Makes all operations, in the order of their paths and, within a path, of the methods. -/
def buildOperations (d : Document) (version : Version) : Build (List Operation) := do
  mapComponents d.schemas
  let ofPaths ← d.paths.mapM fun (path, item) =>
    item.operations.mapM fun (method, op) => buildOperation d version path item method op
  return ofPaths.flatten

/-- What operation naming has to know of an operation. -/
def candidate (op : Operation) : Candidate := ⟨op.declaredId, op.method, op.path⟩

/-- The operations with their ids. -/
def nameOperations (operations : List Operation) : Except GenerationError (List Operation) :=
  match resolveNames (operations.map candidate) with
  | .ok ids => .ok (operations.zipWith (fun op id => { op with id }) ids)
  | .error names => .error (.collidingNames names)

/-- The base URLs that a document declares. -/
def baseUrls (d : Document) : Version → List String
  | .three => d.servers
  | .two =>
    let basePath := d.basePath.getD ""
    match d.host with
    | some host =>
      (orElse d.schemes ["https"]).map fun scheme => scheme ++ "://" ++ host ++ basePath
    | none => if basePath.isEmpty then [] else [basePath]

/-- The definition of a document. -/
def Document.toDefinition (d : Document) : Except GenerationError Definition := do
  let version ← d.version
  let (operations, built) ← (buildOperations d version).run Building.empty
  let operations ← nameOperations operations
  return {
    kind := .openApi
    title := d.title
    version := d.apiVersion
    servers := baseUrls d version
    operations
    types := built.graph
    graphql := none }

end TypedClient.OpenApi
