import TypedClient.Api.Definition
import TypedClient.Json.Decode

/-!
# Introspection results

What a GraphQL server tells about its schema: the root types and a list of declared types, whose
fields refer to each other by name.

* `Introspection` is a result and `Introspection.ofJson` reads one, bare or inside the envelope of
  a response;
* `TypeRef` is a reference to a type, with its wrappers.
-/

set_option autoImplicit false

namespace TypedClient.GraphQl

open Json

/-- The kind of a type. -/
inductive Kind where
  /-- A scalar. -/
  | scalar
  /-- An object. -/
  | object
  /-- An interface. -/
  | interface
  /-- A union. -/
  | union
  /-- An enumeration. -/
  | enumeration
  /-- An object that is an argument. -/
  | inputObject
  /-- A list of another type. -/
  | list
  /-- Another type without null. -/
  | nonNull
  deriving DecidableEq, Repr

/-- The kinds by name. -/
def Kind.options : List (String × Kind) :=
  [("SCALAR", .scalar), ("OBJECT", .object), ("INTERFACE", .interface), ("UNION", .union),
    ("ENUM", .enumeration), ("INPUT_OBJECT", .inputObject), ("LIST", .list),
    ("NON_NULL", .nonNull)]

/-- A reference to a type. -/
inductive TypeRef where
  /-- A reference by name. -/
  | plain (kind : Kind) (name : Option String)
  /-- A reference with another inside. -/
  | wrapping (kind : Kind) (name : Option String) (inner : TypeRef)

namespace TypeRef

/-- The kind of the outermost part. -/
def kind : TypeRef → Kind
  | plain kind _ | wrapping kind _ _ => kind

/-- The name of the outermost part. -/
def name : TypeRef → Option String
  | plain _ name | wrapping _ name _ => name

/-- The name of the type inside all wrappers; a wrapper that has a name ends the search. -/
def innermostName : TypeRef → Option String
  | plain _ name => name
  | wrapping _ (some name) _ => some name
  | wrapping _ none inner => inner.innermostName

end TypeRef

/-- An argument or a field of an input object. -/
structure InputValue where
  /-- The name. -/
  name : String
  /-- What the schema says about it. -/
  description : Option String
  /-- The type of its values. -/
  type : TypeRef

/-- A field of an object. -/
structure FieldDef where
  /-- The name. -/
  name : String
  /-- What the schema says about it. -/
  description : Option String
  /-- The arguments. -/
  arguments : List InputValue
  /-- The type of its values. -/
  type : TypeRef

/-- A declared type. -/
structure DeclaredType where
  /-- The kind of the type. -/
  kind : Kind
  /-- The name. -/
  name : Option String
  /-- What the schema says about it. -/
  description : Option String
  /-- The fields of an object or interface. -/
  fields : List FieldDef
  /-- The fields of an input object. -/
  inputFields : List InputValue
  /-- The interfaces of an object. -/
  interfaces : List TypeRef
  /-- The values of an enumeration. -/
  values : List String
  /-- The members of a union. -/
  possibleTypes : List TypeRef

/-- An introspection result. -/
structure Introspection where
  /-- What the schema says about itself. -/
  description : Option String
  /-- The type of queries. -/
  queryType : Option String
  /-- The type of mutations. -/
  mutationType : Option String
  /-- The type of subscriptions. -/
  subscriptionType : Option String
  /-- The declared types. -/
  types : List DeclaredType

/-- The first declared type of a name. -/
def Introspection.find? (schema : Introspection) (name : String) : Option DeclaredType :=
  schema.types.find? (·.name == some name)

/-! ## Reading -/

/-- Reads a reference to a type. -/
def TypeRef.decode (value : Json) : Decoded TypeRef := do
  let record ← value.fields "TypeRef" ["kind", "name", "ofType"] false
  let kind ← record.required "kind" fun part => choice Kind.options part.1
  let name ← record.optional "name" fun part => text part.1
  match ← record.optional "ofType" fun ⟨part, _⟩ => decode part with
  | some inner => return .wrapping kind name inner
  | none => return .plain kind name
termination_by sizeOf value
decreasing_by omega

/-- Reads an argument. -/
def InputValue.decode (value : Json) : Decoded InputValue := do
  let record ← value.fields "InputValue" ["name", "description", "type", "defaultValue"] false
  let _ ← record.optional "defaultValue" fun part => text part.1
  return {
    name := ← record.required "name" fun part => text part.1
    description := ← record.optional "description" fun part => text part.1
    type := ← record.required "type" fun part => TypeRef.decode part.1 }

/-- Reads a field. -/
def FieldDef.decode (value : Json) : Decoded FieldDef := do
  let record ← value.fields "FieldDef" ["name", "description", "args", "type"] false
  return {
    name := ← record.required "name" fun part => text part.1
    description := ← record.optional "description" fun part => text part.1
    arguments := ← record.defaulted "args" [] fun part => Json.list InputValue.decode part.1
    type := ← record.required "type" fun part => TypeRef.decode part.1 }

/-- Reads the name of a value of an enumeration. -/
def decodeEnumValue (value : Json) : Decoded String := do
  let record ← value.fields "EnumValue" ["name", "description"] false
  let name ← record.required "name" fun part => text part.1
  let _ ← record.optional "description" fun part => text part.1
  return name

/-- Reads a field that is a list, or that is missing or null, which is a list of nothing. -/
def listField {whole : Json} {α : Type} (record : Record whole) (name : String)
    (decode : Json → Decoded α) : Decoded (List α) := do
  return (← record.optional name fun part => Json.list decode part.1).getD []

/-- The fields of a declared type. -/
def DeclaredType.fieldNames : List String :=
  ["kind", "name", "description", "fields", "inputFields", "interfaces", "enumValues",
    "possibleTypes"]

/-- Reads a declared type. -/
def DeclaredType.decode (value : Json) : Decoded DeclaredType := do
  let record ← value.fields "DeclaredType" fieldNames false
  return {
    kind := ← record.required "kind" fun part => choice Kind.options part.1
    name := ← record.optional "name" fun part => text part.1
    description := ← record.optional "description" fun part => text part.1
    fields := ← listField record "fields" FieldDef.decode
    inputFields := ← listField record "inputFields" InputValue.decode
    interfaces := ← listField record "interfaces" TypeRef.decode
    values := ← listField record "enumValues" decodeEnumValue
    possibleTypes := ← listField record "possibleTypes" TypeRef.decode }

/-- Reads the name of a root type. -/
def decodeRoot (value : Json) : Decoded String := do
  let record ← value.fields "NamedType" ["name"] false
  record.required "name" fun part => text part.1

/-- Reads the description of a schema. -/
def Introspection.decode (value : Json) : Decoded Introspection := do
  let record ← value.fields "Schema"
    ["description", "queryType", "mutationType", "subscriptionType", "types"] false
  return {
    description := ← record.optional "description" fun part => text part.1
    queryType := ← record.optional "queryType" fun part => decodeRoot part.1
    mutationType := ← record.optional "mutationType" fun part => decodeRoot part.1
    subscriptionType := ← record.optional "subscriptionType" fun part => decodeRoot part.1
    types := ← record.defaulted "types" [] fun part => Json.list DeclaredType.decode part.1 }

/-- Reads an introspection result: an object with the schema, or with a response that has it. -/
def Introspection.ofJson (document : Json) : Except GenerationError Introspection := do
  let key := "__schema"
  let nested := (document.get? "data").bind (·.get? key)
  match document.get? key <|> nested with
  | none => throw (.malformedSchema "introspection result has no `__schema` object")
  | some raw =>
    match Introspection.decode raw with
    | .ok schema => return schema
    | .error e => throw (.malformedSchema ("Invalid GraphQL introspection: " ++ e.message))

end TypedClient.GraphQl
