import TypedClient.Json.Printer
import TypedClient.OpenApi.Document

/-!
# Reading OpenAPI documents

`Document.ofJson` reads a document from a value.  The version is looked at before anything else, so
a document of an unknown version is reported as that, whatever its shape.  A version may be written
as a number.
-/

set_option autoImplicit false

namespace TypedClient.OpenApi

open Json TypedClient.Api

/-- Reads a parameter. -/
def ParameterObject.decode (value : Json) : Decoded ParameterObject := do
  let record ← value.fields "Parameter"
    ["$ref", "name", "in", "description", "required", "schema", "type", "format", "items", "enum"]
    false
  let _ ← record.optional "format" fun part => text part.1
  return {
    reference := ← record.optional "$ref" fun part => text part.1
    name := ← record.defaulted "name" "" fun part => text part.1
    place := ← record.defaulted "in" "" fun part => text part.1
    description := ← record.optional "description" fun part => text part.1
    required := ← record.defaulted "required" false fun part => flag part.1
    schema := ← record.optional "schema" fun part => Schema.decode part.1
    type := ← record.optional "type" fun part => text part.1
    items := ← record.optional "items" fun part => Schema.decode part.1
    values := ← record.defaulted "enum" [] fun part => Json.list .ok part.1 }

/-- Reads the schemas of media types. -/
def decodeContent : Json → Decoded (Dict (Option Schema)) :=
  Json.dict fun value => do
    let record ← value.fields "MediaType" ["schema"] false
    record.optional "schema" fun part => Schema.decode part.1

/-- Reads a request body. -/
def RequestBody.decode (value : Json) : Decoded RequestBody := do
  let record ← value.fields "RequestBody" ["$ref", "description", "content", "required"] false
  let _ ← record.optional "description" fun part => text part.1
  return {
    reference := ← record.optional "$ref" fun part => text part.1
    content := ← record.defaulted "content" [] fun part => decodeContent part.1
    required := ← record.defaulted "required" false fun part => flag part.1 }

/-- Reads a response. -/
def ResponseObject.decode (value : Json) : Decoded ResponseObject := do
  let record ← value.fields "Response" ["$ref", "description", "content", "schema"] false
  return {
    reference := ← record.optional "$ref" fun part => text part.1
    description := ← record.optional "description" fun part => text part.1
    content := ← record.defaulted "content" [] fun part => decodeContent part.1
    schema := ← record.optional "schema" fun part => Schema.decode part.1 }

/-- Reads an operation. -/
def OperationObject.decode (value : Json) : Decoded OperationObject := do
  let record ← value.fields "Operation"
    ["operationId", "summary", "description", "parameters", "requestBody", "responses", "tags",
      "consumes", "produces"] false
  let _ ← record.defaulted "tags" [] fun part => Json.list text part.1
  return {
    id := ← record.optional "operationId" fun part => text part.1
    summary := ← record.optional "summary" fun part => text part.1
    description := ← record.optional "description" fun part => text part.1
    parameters :=
      ← record.defaulted "parameters" [] fun part => Json.list ParameterObject.decode part.1
    requestBody := ← record.optional "requestBody" fun part => RequestBody.decode part.1
    responses :=
      ← record.defaulted "responses" [] fun part => Json.dict ResponseObject.decode part.1
    consumes := ← record.defaulted "consumes" [] fun part => Json.list text part.1
    produces := ← record.defaulted "produces" [] fun part => Json.list text part.1 }

/-- Reads what is said about a path. -/
def PathItem.decode (value : Json) : Decoded PathItem := do
  let methodField (m : Method) : String := Text.lowerAscii m.text
  let record ← value.fields "PathItem" (Method.all.map methodField ++ ["parameters"]) false
  let operations ← Method.all.mapM fun m => do
    let operation ← record.optional (methodField m) fun part => OperationObject.decode part.1
    return operation.map fun op => (m, op)
  return {
    operations := operations.filterMap id
    parameters :=
      ← record.defaulted "parameters" [] fun part => Json.list ParameterObject.decode part.1 }

/-- Reads the components. -/
def Components.decode (value : Json) : Decoded Components := do
  let record ← value.fields "Components" ["schemas", "parameters", "requestBodies", "responses"]
    false
  return {
    schemas := ← record.defaulted "schemas" [] fun part => Json.dict Schema.decode part.1
    parameters :=
      ← record.defaulted "parameters" [] fun part => Json.dict ParameterObject.decode part.1
    requestBodies :=
      ← record.defaulted "requestBodies" [] fun part => Json.dict RequestBody.decode part.1
    responses :=
      ← record.defaulted "responses" [] fun part => Json.dict ResponseObject.decode part.1 }

/-- Reads the title and the version of an API. -/
def decodeInfo (value : Json) : Decoded (String × String) := do
  let record ← value.fields "Info" ["title", "version", "description"] false
  let title ← record.defaulted "title" "" fun part => text part.1
  let version ← record.defaulted "version" "" fun part => text part.1
  let _ ← record.optional "description" fun part => text part.1
  return (title, version)

/-- Reads the URL of a server. -/
def decodeServer (value : Json) : Decoded String := do
  let record ← value.fields "Server" ["url", "description"] false
  let url ← record.required "url" fun part => text part.1
  let _ ← record.optional "description" fun part => text part.1
  return url

/-- The fields of a document. -/
def Document.fieldNames : List String :=
  ["openapi", "swagger", "info", "paths", "components", "servers", "definitions", "parameters",
    "responses", "host", "basePath", "schemes", "consumes", "produces"]

/-- Reads a document whose versions are texts. -/
def Document.decode (value : Json) : Decoded Document := do
  let record ← value.fields "Document" Document.fieldNames false
  let (title, apiVersion) ← record.defaulted "info" ("", "") fun part => decodeInfo part.1
  return {
    openapi := ← record.optional "openapi" fun part => text part.1
    swagger := ← record.optional "swagger" fun part => text part.1
    title, apiVersion
    paths := ← record.defaulted "paths" [] fun part => Json.dict PathItem.decode part.1
    components := ← record.optional "components" fun part => Components.decode part.1
    servers := ← record.defaulted "servers" [] fun part => Json.list decodeServer part.1
    definitions := ← record.defaulted "definitions" [] fun part => Json.dict Schema.decode part.1
    parameters :=
      ← record.defaulted "parameters" [] fun part => Json.dict ParameterObject.decode part.1
    responses :=
      ← record.defaulted "responses" [] fun part => Json.dict ResponseObject.decode part.1
    host := ← record.optional "host" fun part => text part.1
    basePath := ← record.optional "basePath" fun part => text part.1
    schemes := ← record.defaulted "schemes" [] fun part => Json.list text part.1
    consumes := ← record.defaulted "consumes" [] fun part => Json.list text part.1
    produces := ← record.defaulted "produces" [] fun part => Json.list text part.1 }

/-- A declared version as a text, if it is a text or a number. -/
def declaredVersion? (value : Json) (key : String) : Option String :=
  match value.get? key with
  | some (.string s) => some s
  | some (.number n) => some n.text
  | _ => none

/-- The object with a declared version put as a text. -/
def withVersion (value : Json) (key : String) : Json :=
  match value, declaredVersion? value key with
  | .object members, some version => .object (Dict.insert members key (.string version))
  | value, _ => value

/-- Reads a document. -/
def Document.ofJson (value : Json) : Except GenerationError Document := do
  let _ ← majorVersion (declaredVersion? value "openapi") (declaredVersion? value "swagger")
  match Document.decode (withVersion (withVersion value "openapi") "swagger") with
  | .ok document => return document
  | .error e => throw (.malformedSchema ("Invalid OpenAPI document: " ++ e.message))

end TypedClient.OpenApi
