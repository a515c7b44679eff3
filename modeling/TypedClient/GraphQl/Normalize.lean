import TypedClient.Api.Definition
import TypedClient.GraphQl.Introspection
import TypedClient.Naming.Identifier

/-!
# Definitions of GraphQL schemas

A GraphQL API is one operation that passes queries through.  The declared types that can be reached
from the root types become named types of the definition.

* `reachable` lists the names of these types in the order in which they are found;
* `placeReference` makes the node of a reference.  Whether a value may be missing is a matter of the
  field, so the wrapper that excludes null leaves no trace in the node;
* `Introspection.toDefinition` makes the definition.
-/

set_option autoImplicit false

namespace TypedClient.GraphQl

open TypedClient.Api TypedClient.Types

/-! ## Types in use -/

/-- The references that a declared type makes, in order. -/
def DeclaredType.references (t : DeclaredType) : List TypeRef :=
  t.fields.flatMap (fun field => field.type :: field.arguments.map InputValue.type) ++
    t.inputFields.map InputValue.type ++ t.possibleTypes ++ t.interfaces

/-- Visits the names of a queue: the names found so far, last first, when at most the given number
of names have been visited. -/
def visit (schema : Introspection) (seen found : List String) :
    (steps : Nat) → (queue : List String) → List String
  | 0, _ | _, [] => found
  | steps + 1, name :: queue =>
    if "__".isPrefixOf name || seen.contains name then visit schema seen found steps queue
    else
      let seen := name :: seen
      match schema.find? name with
      | none => visit schema seen found steps queue
      | some type =>
        if type.kind = .scalar then visit schema seen found steps queue
        else
          visit schema seen (name :: found) steps
            (queue ++ type.references.filterMap TypeRef.innermostName)

/-- The names of the declared types, scalars left out, that can be reached from the root types.  A
name enters the queue as a root or through a reference of a type visited for the first time. -/
def reachable (schema : Introspection) : List String :=
  let roots :=
    schema.queryType.toList ++ schema.mutationType.toList ++ schema.subscriptionType.toList
  let steps := roots.length + (schema.types.flatMap DeclaredType.references).length
  (visit schema [] [] steps roots).reverse

/-! ## Nodes -/

/-- A step of building the graph. -/
abbrev Build := StateM TypeGraph

/-- Adds an anonymous node. -/
def add (kind : TypeKind) : Build TypeId := fun g => (g.size, g.add kind)

/-- The shape of the scalars that every schema has. -/
def scalarKind (name : String) : TypeKind :=
  match name with
  | "String" | "ID" => .primitive .string
  | "Int" | "Float" => .primitive .number
  | "Boolean" => .primitive .boolean
  | _ => .unknown

/-- The node for the name of a type. -/
def placeName (named : Dict TypeId) (name : Option String) : Build TypeId :=
  match name with
  | none => add .unknown
  | some name =>
    match Dict.get? named name with
    | some id => pure id
    | none => add (scalarKind name)

/-- The node for a reference. -/
def placeReference (named : Dict TypeId) : TypeRef → Build TypeId
  | .wrapping .nonNull _ inner => placeReference named inner
  | .wrapping .list _ inner => do add (.array (← placeReference named inner))
  | .wrapping _ name _ | .plain _ name => placeName named name

/-- The field of an object type for a field of the schema. -/
def placeField (named : Dict TypeId) (name : String) (description : Option String)
    (type : TypeRef) : Build Field := do
  return ⟨name, ← placeReference named type, type.kind = .nonNull, description⟩

/-- The shape of a declared type. -/
def shapeOf (named : Dict TypeId) (t : DeclaredType) : Build TypeKind := do
  match t.kind with
  | .object | .interface =>
    return .object (← t.fields.mapM fun f => placeField named f.name f.description f.type)
  | .inputObject =>
    return .object (← t.inputFields.mapM fun f => placeField named f.name f.description f.type)
  | .enumeration => return .enumeration (t.values.map .string)
  | .union => return .union (← t.possibleTypes.mapM (placeReference named))
  | _ => return .unknown

/-- Reserves the node of a declared type. -/
def reserveType (named : Dict TypeId) (name : String) : Build (Dict TypeId) := do
  let g ← get
  let (g, id) := g.reserve (g.uniqueName (Naming.typeName name))
  set g
  return Dict.insert named name id

/-- Gives a reserved node its shape. -/
def defineType (schema : Introspection) (named : Dict TypeId) (name : String) : Build Unit := do
  match schema.find? name, Dict.get? named name with
  | some type, some id =>
    let kind ← shapeOf named type
    modify fun g => (g.setKind id kind).setDescription id type.description
  | _, _ => return

/-! ## The operation -/

/-- The id of the operation that passes queries through. -/
def operationId : String := "graphql"

/-- The path of the operation that passes queries through. -/
def operationPath : String := "/graphql"

/-- The operation that passes queries through: it takes a query with its variables and answers data
and errors. -/
def passThrough : Build Operation := do
  let query ← add (.primitive .string)
  let any ← add .unknown
  let values ← add (.map any)
  let body ← add (.object [⟨"query", query, true, none⟩, ⟨"variables", values, false, none⟩])
  let data ← add .unknown
  let error ← add .unknown
  let errors ← add (.array error)
  let response ← add (.object [⟨"data", data, false, none⟩, ⟨"errors", errors, false, none⟩])
  return {
    id := operationId
    declaredId := none
    method := .post
    path := operationPath
    summary := some "GraphQL pass-through"
    parameters := [⟨"body", .body, true, body, none⟩]
    content := some ⟨.json, jsonMedia⟩
    responses := [⟨.code 200, none, [⟨jsonMedia, some response⟩]⟩] }

/-- Builds the graph and the operation. -/
def buildDefinition (schema : Introspection) : Build Operation := do
  let names := reachable schema
  let named ← names.foldlM reserveType []
  names.forM (defineType schema named)
  passThrough

/-- The definition of a schema. -/
def Introspection.toDefinition (schema : Introspection) : Except GenerationError Definition :=
  if schema.queryType.isNone && schema.mutationType.isNone then
    .error (.malformedSchema "introspection result declares no query or mutation type")
  else
    let (operation, types) := (buildDefinition schema).run TypeGraph.empty
    .ok {
      kind := .graphql
      title := schema.description.getD "GraphQL API"
      version := ""
      servers := []
      operations := [operation]
      types
      graphql := some ⟨schema.queryType, schema.mutationType, schema.subscriptionType⟩ }

end TypedClient.GraphQl
