import TypedClient.Json.Basic
import TypedClient.Json.Decode
import TypedClient.Types.Graph

/-!
# Type graphs as values

A graph is written as its list of nodes and the positions of the names.  `TypeGraph.encode` writes
it and `TypeGraph.decode` reads it back.  Members stand in the order of the fields.
-/

set_option autoImplicit false

namespace TypedClient.Types

open Json

/-- The names of the scalar types. -/
def Primitive.options : List (String × Primitive) :=
  [("string", .string), ("number", .number), ("boolean", .boolean), ("null", .null)]

/-- Reads the position of a node. -/
def decodeId : Json → Decoded TypeId := Json.natural 64

/-- A field as a value. -/
def Field.encode (field : Field) : Json :=
  .object ([("name", .string field.name), ("ty", .ofNat field.type),
    ("required", .bool field.required)] ++ given "description" .string field.description)

/-- Reads a field. -/
def Field.decode (value : Json) : Decoded Field := do
  let record ← value.fields "Field" ["name", "ty", "required", "description"] false
  return {
    name := ← record.required "name" fun part => text part.1
    type := ← record.required "ty" fun part => decodeId part.1
    required := ← record.required "required" fun part => flag part.1
    description := ← record.optional "description" fun part => text part.1 }

/-- A shape as a value. -/
def TypeKind.encode : TypeKind → Json
  | .unknown => .string "unknown"
  | .primitive of => .object [("primitive", .string of.text)]
  | .object fields => .object [("object", ofList Field.encode fields)]
  | .map value => .object [("map", .ofNat value)]
  | .array item => .object [("array", .ofNat item)]
  | .enumeration values => .object [("enum", .array values)]
  | .union members => .object [("union", ofList .ofNat members)]

/-- The names of the shapes. -/
def TypeKind.tags : List String :=
  ["unknown", "primitive", "object", "map", "array", "enum", "union"]

/-- Reads a shape. -/
def TypeKind.decode (value : Json) : Decoded TypeKind := do
  match ← value.tagged with
  | ("unknown", none) | ("unknown", some ⟨.null, _⟩) => return .unknown
  | ("primitive", some part) => return .primitive (← choice Primitive.options part.1)
  | ("object", some part) => return .object (← Json.list Field.decode part.1)
  | ("map", some part) => return .map (← decodeId part.1)
  | ("array", some part) => return .array (← decodeId part.1)
  | ("enum", some part) => return .enumeration (← Json.list .ok part.1)
  | ("union", some part) => return .union (← Json.list decodeId part.1)
  | (tag, contents) =>
    if !TypeKind.tags.contains tag then throw (.unknownVariant tag TypeKind.tags)
    else
      match contents with
      | some part => throw (.wrongType part.1 "unit")
      | none => throw (.wrongType (.string tag) "newtype variant")

/-- A node as a value. -/
def TypeNode.encode (node : TypeNode) : Json :=
  .object (given "name" .string node.name ++ [("kind", node.kind.encode)] ++
    given "description" .string node.description)

/-- Reads a node. -/
def TypeNode.decode (value : Json) : Decoded TypeNode := do
  let record ← value.fields "TypeNode" ["name", "kind", "description"] false
  return {
    name := ← record.optional "name" fun part => text part.1
    kind := ← record.required "kind" fun part => TypeKind.decode part.1
    description := ← record.optional "description" fun part => text part.1 }

/-- A graph as a value. -/
def TypeGraph.encode (g : TypeGraph) : Json :=
  .object [("nodes", ofList TypeNode.encode g.nodes.toList), ("names", ofDict .ofNat g.names)]

/-- Reads a graph. -/
def TypeGraph.decode (value : Json) : Decoded TypeGraph := do
  let record ← value.fields "TypeGraph" ["nodes", "names"] false
  let nodes ← record.required "nodes" fun part => Json.list TypeNode.decode part.1
  let names ← record.required "names" fun part => Json.dict decodeId part.1
  return { nodes := nodes.toArray, names }

end TypedClient.Types
