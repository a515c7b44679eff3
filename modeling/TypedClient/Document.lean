import TypedClient.GraphQl.Normalize
import TypedClient.Json.Reader
import TypedClient.OpenApi.Decode
import TypedClient.OpenApi.Normalize
import TypedClient.Yaml.Document

/-!
# Schema documents

A schema is given as a text, in JSON or YAML, and may be of either kind.

* `readDocument` reads a text as JSON and, where that fails, as YAML;
* `kindOf` tells the kind of a document by its members;
* `normalize`, `normalizeText` and `normalizeFile` make the definition of a document.
-/

set_option autoImplicit false

namespace TypedClient

open TypedClient.Api

/-- Reads the text of a document. -/
def readDocument (text : String) : Except GenerationError Json :=
  match Json.read text <|> Yaml.read text with
  | some document => .ok document
  | none => .error (.malformedSchema "not valid JSON or YAML")

/-- Whether a value is an object with the given member. -/
def hasMember (key : String) : Json → Bool
  | .object members => Dict.contains members key
  | _ => false

/-- The kind of a document. -/
def kindOf (document : Json) : Except GenerationError SchemaKind :=
  match document with
  | .object _ =>
    let introspection := "__schema"
    if hasMember "openapi" document || hasMember "swagger" document then .ok .openApi
    else if hasMember introspection document ||
        (document.get? "data").any (hasMember introspection) then
      .ok .graphql
    else .error .ambiguousKind
  | _ => .error (.malformedSchema "schema document must be an object")

/-- The definition of a document, of the given kind or of the kind its members tell. -/
def normalize (document : Json) (kind : Option SchemaKind) : Except GenerationError Definition := do
  match ← kind.elim (kindOf document) .ok with
  | .openApi => (← OpenApi.Document.ofJson document).toDefinition
  | .graphql => (← GraphQl.Introspection.ofJson document).toDefinition

/-- The definition of a text. -/
def normalizeText (text : String) (kind : Option SchemaKind) : Except GenerationError Definition :=
  do normalize (← readDocument text) kind

/-- The definition of a file, given its text or why it cannot be read. -/
def normalizeFile (path : String) (contents : Except String String) (kind : Option SchemaKind) :
    Except GenerationError Definition := do
  let text ← contents.mapError fun e => .failed ("Failed to read schema " ++ path ++ ": " ++ e)
  normalizeText text kind

end TypedClient
