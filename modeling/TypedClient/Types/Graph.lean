import TypedClient.Json.Basic
import TypedClient.Naming.Identifier

/-!
# Type graphs

The types of an API live in one list of nodes and refer to each other by position.  Types that the
schema names become named nodes, and every reference to them is an edge to that node, so recursive
types are cycles of the graph instead of infinite trees.  Every cycle of a graph that this library
builds passes through a named node.

* `TypeKind` is the shape of a node, `TypeNode` a node, `TypeGraph` the nodes with an index of
  their names;
* `TypeGraph.add` and `TypeGraph.reserve` make nodes; a reserved node is named first and gets its
  shape later, which is how a type can refer to itself;
* `TypeGraph.resolve` looks through aliases, which are unions of one member.
-/

set_option autoImplicit false

namespace TypedClient.Types

/-- The position of a node in its graph. -/
abbrev TypeId := Nat

/-- The scalar types. -/
inductive Primitive where
  /-- Texts. -/
  | string
  /-- Integers and doubles. -/
  | number
  /-- Truth values. -/
  | boolean
  /-- The null value alone. -/
  | null
  deriving DecidableEq, Repr

/-- The name of a scalar type. -/
def Primitive.text : Primitive → String
  | .string => "string"
  | .number => "number"
  | .boolean => "boolean"
  | .null => "null"

/-- A field of an object type. -/
structure Field where
  /-- The name of the field. -/
  name : String
  /-- The type of its values. -/
  type : TypeId
  /-- Whether every object of the type has the field. -/
  required : Bool
  /-- What the schema says about the field. -/
  description : Option String

/-- The shape of a type. -/
inductive TypeKind where
  /-- Nothing is known: any value belongs to the type. -/
  | unknown
  /-- A scalar type. -/
  | primitive (of : Primitive)
  /-- Objects with the given fields, in order; further members are allowed. -/
  | object (fields : List Field)
  /-- Objects all of whose members have one type. -/
  | map (value : TypeId)
  /-- Lists whose items have one type. -/
  | array (item : TypeId)
  /-- A closed list of values. -/
  | enumeration (values : List Json)
  /-- The values of any of the members; a union of one member is an alias. -/
  | union (members : List TypeId)

/-- A node of a graph. -/
structure TypeNode where
  /-- The name of the type, if the schema names it. -/
  name : Option String
  /-- The shape of the type. -/
  kind : TypeKind
  /-- What the schema says about the type. -/
  description : Option String

instance : Inhabited TypeNode := ⟨⟨none, .unknown, none⟩⟩

/-- The ids a shape refers to, in order. -/
def TypeKind.references : TypeKind → List TypeId
  | .object fields => fields.map Field.type
  | .map value => [value]
  | .array item => [item]
  | .union members => members
  | .unknown | .primitive _ | .enumeration _ => []

/-- A list of nodes with an index of their names. -/
structure TypeGraph where
  /-- The nodes, in the order they were made. -/
  nodes : Array TypeNode
  /-- The position of each named node. -/
  names : Dict TypeId

namespace TypeGraph

/-- The graph without nodes. -/
def empty : TypeGraph := ⟨#[], []⟩

instance : Inhabited TypeGraph := ⟨empty⟩

/-- The number of nodes, which is also the id of the next one. -/
def size (g : TypeGraph) : Nat := g.nodes.size

/-- The node at a position; beyond the last one an anonymous node of which nothing is known. -/
def node (g : TypeGraph) (id : TypeId) : TypeNode := g.nodes.getD id default

/-- The shape of a node. -/
def kind (g : TypeGraph) (id : TypeId) : TypeKind := (g.node id).kind

/-- The name of a node. -/
def nameOf (g : TypeGraph) (id : TypeId) : Option String := (g.node id).name

/-- The id of the node with the given name. -/
def lookup (g : TypeGraph) (name : String) : Option TypeId := Dict.get? g.names name

/-- The graph with one more anonymous node, whose id is the size before. -/
def add (g : TypeGraph) (kind : TypeKind) : TypeGraph :=
  { g with nodes := g.nodes.push ⟨none, kind, none⟩ }

/-- The graph with a node of the given name, and the id of that node.  A new node stays unknown
until its shape is set. -/
def reserve (g : TypeGraph) (name : String) : TypeGraph × TypeId :=
  match g.lookup name with
  | some id => (g, id)
  | none =>
    ({ nodes := g.nodes.push ⟨some name, .unknown, none⟩
       names := Dict.insert g.names name g.size }, g.size)

/-- The graph with a node changed; nothing changes beyond the last node. -/
def modify (g : TypeGraph) (id : TypeId) (change : TypeNode → TypeNode) : TypeGraph :=
  { g with nodes := g.nodes.modify id change }

/-- The graph with the shape of a node set. -/
def setKind (g : TypeGraph) (id : TypeId) (kind : TypeKind) : TypeGraph :=
  g.modify id fun node => { node with kind }

/-- The graph with the description of a node set. -/
def setDescription (g : TypeGraph) (id : TypeId) (description : Option String) : TypeGraph :=
  g.modify id fun node => { node with description }

/-- The candidate, or else the first free numbered variant of it. -/
def uniqueName (g : TypeGraph) (candidate : String) : String :=
  Naming.freeName (Dict.keys g.names) candidate

/-- The node an alias stands for: follows unions of one member, for at most the given number of
steps. -/
def resolveWithin (g : TypeGraph) (id : TypeId) : (steps : Nat) → TypeId
  | 0 => id
  | steps + 1 =>
    match g.kind id with
    | .union [member] => g.resolveWithin member steps
    | _ => id

/-- The node an alias stands for.  A chain of aliases that does not come back to itself has fewer
steps than the graph has nodes. -/
def resolve (g : TypeGraph) (id : TypeId) : TypeId := g.resolveWithin id g.size

/-- The fields of an object type, looking through aliases. -/
def objectFields? (g : TypeGraph) (id : TypeId) : Option (List Field) :=
  match g.kind (g.resolve id) with
  | .object fields => some fields
  | _ => none

/-! ## Nodes after a change -/

@[simp] theorem size_add (g : TypeGraph) (kind : TypeKind) : (g.add kind).size = g.size + 1 := by
  simp [add, size]

/-- The new node is the one at the size before. -/
theorem node_add_self (g : TypeGraph) (kind : TypeKind) :
    (g.add kind).node g.size = ⟨none, kind, none⟩ := by
  simp [add, node, size]

theorem node_add_of_lt {g : TypeGraph} {id : TypeId} (h : id < g.size) (kind : TypeKind) :
    (g.add kind).node id = g.node id := by
  have h' : id < g.nodes.size := h
  simp [add, node, Array.getElem?_push, Nat.ne_of_lt h']

@[simp] theorem size_modify (g : TypeGraph) (id : TypeId) (change : TypeNode → TypeNode) :
    (g.modify id change).size = g.size := by
  simp [modify, size]

theorem node_modify_self {g : TypeGraph} {id : TypeId} (h : id < g.size)
    (change : TypeNode → TypeNode) : (g.modify id change).node id = change (g.node id) := by
  have h' : id < g.nodes.size := h
  simp [modify, node, Array.getElem_modify, h']

theorem node_modify_of_ne (g : TypeGraph) {id other : TypeId} (h : other ≠ id)
    (change : TypeNode → TypeNode) : (g.modify id change).node other = g.node other := by
  simp [modify, node, Array.getElem?_modify, Ne.symm h]

/-- A reserved name is found at the id that was handed out for it. -/
theorem lookup_reserve (g : TypeGraph) (name : String) :
    (g.reserve name).1.lookup name = some (g.reserve name).2 := by
  rw [reserve]
  split
  · assumption
  · simp [lookup]

/-! ## Closed graphs -/

/-- Every id the graph mentions belongs to a node. -/
def Closed (g : TypeGraph) : Prop :=
  (∀ id < g.size, ∀ child ∈ (g.kind id).references, child < g.size) ∧
    ∀ entry ∈ g.names, entry.2 < g.size

end TypeGraph

end TypedClient.Types
