import TypedClient.Json.Decode
import TypedClient.Text.Split

/-!
# Schemas

A schema describes the values of a type by keywords.  The keywords that hold further schemas are
kept apart from those that do not.

* `Schema` is a schema and `Schema.decode` reads one;
* alternatives of `oneOf` and `anyOf` mean the same here and stand in one list.

A document refers to its own components by JSON pointers.

* `Section` lists the sections of a document that components stand in;
* `referredName?` reads the name of a component from a pointer into one of them.  In a name, `/` is
  written `~1` and `~` is written `~0`.
-/

set_option autoImplicit false

namespace TypedClient.OpenApi

open Json TypedClient.Text

/-- The keywords of a schema that hold no further schemas. -/
structure Keywords where
  /-- A reference that stands for the whole schema. -/
  reference : Option String := none
  /-- The names of the types, if the schema has the keyword; one name is a list of one. -/
  types : Option (List String) := none
  /-- What the schema says about its type. -/
  description : Option String := none
  /-- The names of the properties that have to be present. -/
  required : List String := []
  /-- The values of an enumeration; none if the type is no enumeration. -/
  values : List Json := []
  /-- The only value. -/
  constant : Option Json := none
  /-- Whether null is a further value. -/
  nullable : Bool := false

/-- What is said about members of an object that are no properties. -/
inductive Additional (α : Type) where
  /-- Whether there may be such members. -/
  | allowed (flag : Bool)
  /-- The schema of the values of such members. -/
  | described (schema : α)

/-- A schema, with the keywords that hold schemas beside the others. -/
structure Schema where
  /-- The keywords that hold no schemas. -/
  keywords : Keywords
  /-- The properties of an object, by name. -/
  properties : List (String × Schema)
  /-- The schema of the items of a list. -/
  items : Option Schema
  /-- What is said about further members of an object. -/
  additional : Option (Additional Schema)
  /-- Schemas one of which has to hold. -/
  alternatives : List Schema
  /-- Schemas all of which have to hold. -/
  parts : List Schema

namespace Schema

/-- The schema of the given keywords without schemas inside. -/
def ofKeywords (keywords : Keywords) : Schema := ⟨keywords, [], none, none, [], []⟩

instance : Inhabited Schema := ⟨ofKeywords { }⟩

/-- The fields of a schema. -/
def fieldNames : List String :=
  ["$ref", "type", "format", "title", "description", "properties", "required", "items",
    "additionalProperties", "enum", "const", "oneOf", "anyOf", "allOf", "nullable", "x-nullable"]

/-- Reads the names of the types: one name, or a list. -/
def decodeTypes : Json → Decoded (List String)
  | .string name => .ok [name]
  | .array names =>
    match Json.list text (.array names) with
    | .ok names => .ok names
    | .error _ => .error (.noVariant "type")
  | _ => .error (.noVariant "type")

/-- Reads the keywords that hold no schemas; the format and the title are looked at only to refuse
what is no text. -/
def decodeKeywords {whole : Json} (record : Record whole) : Decoded Keywords := do
  let reference ← record.optional "$ref" fun part => text part.1
  let types ← record.optional "type" fun part => decodeTypes part.1
  let _ ← record.optional "format" fun part => text part.1
  let _ ← record.optional "title" fun part => text part.1
  let description ← record.optional "description" fun part => text part.1
  let required ← record.defaulted "required" [] fun part => Json.list text part.1
  let values ← record.defaulted "enum" [] fun part => Json.list .ok part.1
  let constant ← record.optional "const" fun part => .ok part.1
  let nullable ← record.defaulted "nullable" false fun part => flag part.1
  let extension ← record.defaulted "x-nullable" false fun part => flag part.1
  return { reference, types, description, required, values, constant
           nullable := nullable || extension }

/-- Reads a schema. -/
def decode (value : Json) : Decoded Schema := do
  let record ← value.fields "Schema" fieldNames false
  let keywords ← decodeKeywords record
  let properties ← record.defaulted "properties" [] fun ⟨part, _⟩ => do
    let members ← (← part.members).mapM fun (name, ⟨member, _⟩) => do
      return (name, ← decode member)
    return Dict.ofList members
  let items ← record.optional "items" fun ⟨part, _⟩ => decode part
  let additional ← record.optional "additionalProperties" fun ⟨part, _⟩ =>
    match flag part with
    | .ok allowed => .ok (.allowed allowed)
    | .error _ =>
      match decode part with
      | .ok schema => .ok (.described schema)
      | .error _ => .error (.noVariant "additionalProperties")
  let oneOf ← record.defaulted "oneOf" [] fun ⟨part, _⟩ => do
    (← part.items).mapM fun ⟨item, _⟩ => decode item
  let anyOf ← record.defaulted "anyOf" [] fun ⟨part, _⟩ => do
    (← part.items).mapM fun ⟨item, _⟩ => decode item
  let parts ← record.defaulted "allOf" [] fun ⟨part, _⟩ => do
    (← part.items).mapM fun ⟨item, _⟩ => decode item
  return { keywords, properties, items, additional, alternatives := oneOf ++ anyOf, parts }
termination_by sizeOf value
decreasing_by all_goals omega

end Schema

/-! ## References -/

/-- A kind of component that can be referred to. -/
inductive Section where
  /-- Schemas of types. -/
  | schemas
  /-- Parameters. -/
  | parameters
  /-- Request bodies. -/
  | requestBodies
  /-- Responses. -/
  | responses
  deriving DecidableEq, Repr

/-- The pointers that names of components of a kind follow. -/
def Section.pointers : Section → List String
  | .schemas => ["#/components/schemas/", "#/definitions/"]
  | .parameters => ["#/components/parameters/", "#/parameters/"]
  | .requestBodies => ["#/components/requestBodies/"]
  | .responses => ["#/components/responses/", "#/responses/"]

/-- A name read from a pointer. -/
def unescapePointer (token : List Char) : List Char :=
  replacePair '~' '0' ['~'] (replacePair '~' '1' ['/'] token)

/-- The name of the component of the given kind that a reference points to. -/
def referredName? (kind : Section) (reference : String) : Option String := do
  let token ← kind.pointers.findSome? fun pointer => afterStart? pointer.toList reference.toList
  if token.isEmpty || token.contains '/' then none else some (.ofList (unescapePointer token))

end TypedClient.OpenApi
