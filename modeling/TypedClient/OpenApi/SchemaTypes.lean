import TypedClient.Api.Definition
import TypedClient.Naming.Identifier
import TypedClient.OpenApi.Schema
import TypedClient.Types.Graph

/-!
# Types of schemas

Schemas become nodes of a type graph.  The node of a named schema is reserved before its own
keywords are looked at, so a schema that refers to itself, directly or through others, ends at the
reserved node.

* `shapeOf` is the shape of a schema; references are left to a function that it is given;
* `placeNode` makes the node of a schema from its shape;
* `component` makes the node of a named schema, `mapComponents` those of all named schemas, and
  `mapSchema` that of a schema that stands anywhere else.
-/

set_option autoImplicit false

namespace TypedClient.OpenApi

open TypedClient.Types

/-- What has been built so far. -/
structure Building where
  /-- The graph. -/
  graph : TypeGraph
  /-- The node of every named schema that was met, by the name the document gives it. -/
  placed : Dict TypeId

/-- Nothing built yet. -/
def Building.empty : Building := ⟨TypeGraph.empty, []⟩

/-- A step of building. -/
abbrev Build := StateT Building (Except GenerationError)

namespace Build

/-- Adds an anonymous node. -/
def add (kind : TypeKind) : Build TypeId := fun b =>
  .ok (b.graph.size, { b with graph := b.graph.add kind })

/-- The graph so far. -/
def graph : Build TypeGraph := fun b => .ok (b.graph, b)

/-- Changes the graph. -/
def change (f : TypeGraph → TypeGraph) : Build Unit := fun b =>
  .ok ((), { b with graph := f b.graph })

end Build

/-- Adds null to the values of a node, unless null is all that the node admits. -/
def admitNull (nullable : Bool) (id : TypeId) : Build TypeId := do
  if !nullable then return id
  match (← Build.graph).kind id with
  | .primitive .null => return id
  | _ =>
    let null ← Build.add (.primitive .null)
    Build.add (.union [id, null])

/-- Makes the node of a schema from its shape; a reference stands for the node it leads to. -/
def placeNode (follow : String → Build TypeId) (keywords : Keywords) (shape : Build TypeKind) :
    Build TypeId := do
  match keywords.reference with
  | some reference => admitNull keywords.nullable (← follow reference)
  | none =>
    let kind ← shape
    let id ← Build.add kind
    Build.change (·.setDescription id keywords.description)
    admitNull keywords.nullable id

/-! ## Merging -/

/-- The shape of a node, looking through aliases for at most the given number of steps; a chain that
goes on longer has none. -/
def aliasedKind (g : TypeGraph) (id : TypeId) : (steps : Nat) → TypeKind
  | 0 => .unknown
  | steps + 1 =>
    match g.kind id with
    | .union [member] => aliasedKind g member steps
    | kind => kind

/-- The fields with one more laid over them: a field of the same name gives way in its place, and
the name stays required if it was. -/
def overlayField (fields : List Field) (field : Field) : List Field :=
  match fields with
  | [] => [field]
  | first :: rest =>
    if first.name = field.name then
      { field with required := first.required || field.required } :: rest
    else first :: overlayField rest field

/-- The shape of the values that belong to all of the given nodes.  The fields of object types are
laid over each other in order; without object types a single other type stands for itself. -/
def mergedKind (g : TypeGraph) (members : List TypeId) : TypeKind :=
  let shapes := members.map fun id => (id, aliasedKind g id g.size)
  let objects := shapes.filterMap fun (_, kind) =>
    match kind with
    | .object fields => some fields
    | _ => none
  let others := shapes.filterMap fun (id, kind) =>
    match kind with
    | .object _ | .unknown => none
    | _ => some id
  if objects.isEmpty then
    match others with
    | [single] => if (g.nameOf single).isSome then .union [single] else g.kind single
    | _ => .unknown
  else .object (objects.flatten.foldl overlayField [])

/-! ## Shapes -/

/-- The names of the types of a schema; where the schema names none, its other keywords tell. -/
def typeNames (s : Schema) : List String :=
  match s.keywords.types with
  | some names => names
  | none =>
    if !s.properties.isEmpty || s.additional.isSome then ["object"]
    else if s.items.isSome then ["array"]
    else []

/-- The shape for the name of a type.  Names that stand for nothing known admit any value. -/
def shapeNamed (array object : Build TypeKind) (name : String) : Build TypeKind :=
  match name with
  | "string" => pure (.primitive .string)
  | "number" | "integer" => pure (.primitive .number)
  | "boolean" => pure (.primitive .boolean)
  | "null" => pure (.primitive .null)
  | "array" => array
  | "object" => object
  | _ => pure .unknown

/-- The shape for a list of names of types. -/
def shapeOfNames (array object : Build TypeKind) : List String → Build TypeKind
  | [] => pure .unknown
  | [name] => shapeNamed array object name
  | names => do
    let members ← names.mapM fun name => do Build.add (← shapeNamed array object name)
    return .union members

mutual

/-- The shape of a schema.  A reference decides first, then `allOf`, then alternatives, then a
constant, then an enumeration, and last the names of types. -/
def shapeOf (follow : String → Build TypeId) : Schema → Build TypeKind
  | ⟨keywords, properties, items, additional, alternatives, parts⟩ =>
    let array : Build TypeKind := do return .array (← placeItems follow items)
    let object : Build TypeKind := do
      match properties, additional with
      | [], some (.described _) => return .map (← placeAdditional follow additional)
      | [], some (.allowed true) => return .map (← placeAdditional follow additional)
      | _, _ => return .object (← placeProperties follow keywords.required properties)
    let own : Build TypeKind := do
      if !alternatives.isEmpty then return .union (← placeAll follow alternatives)
      else
        match keywords.constant with
        | some value => return .enumeration [value]
        | none =>
          if !keywords.values.isEmpty then return .enumeration keywords.values
          else
            shapeOfNames array object
              (typeNames ⟨keywords, properties, items, additional, [], []⟩)
    match keywords.reference with
    | some reference => do return .union [← follow reference]
    | none =>
      if parts.isEmpty then own
      else do
        let inherited ← placeAll follow parts
        if properties.isEmpty then return mergedKind (← Build.graph) inherited
        else
          let last ← placeNode follow { keywords with nullable := false } own
          return mergedKind (← Build.graph) (inherited ++ [last])

/-- The nodes of schemas, in order. -/
def placeAll (follow : String → Build TypeId) : List Schema → Build (List TypeId)
  | [] => pure []
  | schema :: rest => do
    let id ← placeNode follow schema.keywords (shapeOf follow schema)
    return id :: (← placeAll follow rest)

/-- The fields for properties, in order. -/
def placeProperties (follow : String → Build TypeId) (required : List String) :
    List (String × Schema) → Build (List Field)
  | [] => pure []
  | (name, schema) :: rest => do
    let id ← placeNode follow schema.keywords (shapeOf follow schema)
    let field : Field := ⟨name, id, required.contains name, schema.keywords.description⟩
    return field :: (← placeProperties follow required rest)

/-- The node of the items of a list. -/
def placeItems (follow : String → Build TypeId) : Option Schema → Build TypeId
  | some schema => placeNode follow schema.keywords (shapeOf follow schema)
  | none => Build.add .unknown

/-- The node of the values of further members. -/
def placeAdditional (follow : String → Build TypeId) :
    Option (Additional Schema) → Build TypeId
  | some (.described schema) => placeNode follow schema.keywords (shapeOf follow schema)
  | _ => Build.add .unknown

end

/-- Makes the node of a schema, with references followed by `follow`. -/
def placeSchema (follow : String → Build TypeId) (schema : Schema) : Build TypeId :=
  placeNode follow schema.keywords (shapeOf follow schema)

/-! ## Named schemas -/

/-- Follows a reference to a named schema. -/
def followTo (schemas : Dict Schema) (visit : String → Build TypeId) (reference : String) :
    Build TypeId :=
  match referredName? .schemas reference with
  | some name =>
    if Dict.contains schemas name then visit name
    else throw (.unresolvedReference reference)
  | none => throw (.unresolvedReference reference)

/-- Takes a name for a named schema and reserves its node. -/
def reserveComponent (name : String) : Build TypeId := fun b =>
  let (graph, id) := b.graph.reserve (b.graph.uniqueName (Naming.typeName name))
  .ok (id, ⟨graph, Dict.insert b.placed name id⟩)

/-- The node of a named schema that was met before, or else the one that `make` makes. -/
def placedOr (name : String) (make : Build TypeId) : Build TypeId := do
  match Dict.get? (← get).placed name with
  | some id => return id
  | none => make

/-- The shape for a named schema: null is admitted inside its node, not beside it. -/
def admitNullInside (nullable : Bool) (kind : TypeKind) : Build TypeKind := do
  if nullable then
    let inner ← Build.add kind
    let null ← Build.add (.primitive .null)
    return .union [inner, null]
  else return kind

/-- Makes the node of a named schema, whose shape is made while the node is reserved. -/
def makeComponent (name : String) (schema : Schema) (shape : Build TypeKind) : Build TypeId := do
  let id ← reserveComponent name
  let kind ← admitNullInside schema.keywords.nullable (← shape)
  Build.change fun g => (g.setKind id kind).setDescription id schema.keywords.description
  return id

/-- The node of a named schema, made if it was not met before.  Each step met inside another has
reserved one more schema, so as many steps as there are schemas suffice. -/
def component (schemas : Dict Schema) : (steps : Nat) → String → Build TypeId
  | 0, name => placedOr name (throw (.unresolvedReference name))
  | steps + 1, name =>
    placedOr name <|
      match Dict.get? schemas name with
      | none => throw (.unresolvedReference name)
      | some schema =>
        makeComponent name schema (shapeOf (followTo schemas (component schemas steps)) schema)

/-- The node that a reference leads to. -/
def mapReference (schemas : Dict Schema) : String → Build TypeId :=
  followTo schemas (component schemas schemas.length)

/-- The node of a schema that stands outside of the named ones. -/
def mapSchema (schemas : Dict Schema) (schema : Schema) : Build TypeId :=
  placeSchema (mapReference schemas) schema

/-- Makes the nodes of all named schemas, in the order of their names. -/
def mapComponents (schemas : Dict Schema) : Build Unit :=
  (Dict.keys schemas).forM fun name => discard (component schemas schemas.length name)

end TypedClient.OpenApi
