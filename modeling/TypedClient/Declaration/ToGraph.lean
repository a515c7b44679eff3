import TypedClient.Api.Definition
import TypedClient.Declaration.Reader
import TypedClient.Types.Graph

/-!
# Declarations as a type graph

Every declared name, and every name a declaration refers to, becomes a named node; one that is
never declared stays unknown.

* `place` puts a type expression into a graph;
* `define` gives a name its type.  A name for a named type is an alias, which is a union of one
  member; any other type lends the name its shape;
* `graphOf` makes the graph of declarations and `parseDeclarations` that of a text.
-/

set_option autoImplicit false

namespace TypedClient.Declaration

open TypedClient.Types

/-- The value of a union member that is a literal or null. -/
def literalValue? : TypeExpr → Option Json
  | .literal value => some value
  | .primitive .null => some .null
  | _ => none

/-- The values of a union of literals and null, of which at least one is a literal. -/
def enumerationValues? (members : List TypeExpr) : Option (List Json) :=
  let isLiteral (member : TypeExpr) : Bool :=
    match member with
    | .literal _ => true
    | _ => false
  if members.any isLiteral then members.mapM literalValue? else none

/-- Adds an anonymous node. -/
def addNode (g : TypeGraph) (kind : TypeKind) : TypeGraph × TypeId := (g.add kind, g.size)

mutual

/-- The graph with the nodes of a type expression, and the node that stands for it. -/
def place (g : TypeGraph) : TypeExpr → TypeGraph × TypeId
  | .unknown => addNode g .unknown
  | .primitive p => addNode g (.primitive p)
  | .literal value => addNode g (.enumeration [value])
  | .name name => g.reserve name
  | .array item =>
    let (g, id) := place g item
    addNode g (.array id)
  | .record value =>
    let (g, id) := place g value
    addNode g (.map id)
  | .object members =>
    let (g, fields) := placeMembers g members
    addNode g (.object fields)
  | .union members =>
    match enumerationValues? members with
    | some values => addNode g (.enumeration values)
    | none =>
      let (g, ids) := placeAll g members
      addNode g (.union ids)
  | .group inner | .noted inner _ => place g inner

/-- `place` for several type expressions, in order. -/
def placeAll (g : TypeGraph) : List TypeExpr → TypeGraph × List TypeId
  | [] => (g, [])
  | expr :: rest =>
    let (g, id) := place g expr
    let (g, ids) := placeAll g rest
    (g, id :: ids)

/-- `place` for the types of members, in order. -/
def placeMembers (g : TypeGraph) : List (Member TypeExpr) → TypeGraph × List Field
  | [] => (g, [])
  | ⟨name, optional, type⟩ :: rest =>
    let (g, id) := place g type
    let (g, fields) := placeMembers g rest
    (g, ⟨name, id, !optional, none⟩ :: fields)

end

/-- The type of a declaration. -/
def Statement.type : Statement → TypeExpr
  | .interface _ members => .object members
  | .typeAlias _ type => type

/-- The graph with a name declared. -/
def define (g : TypeGraph) (statement : Statement) : TypeGraph :=
  let (g, id) := g.reserve statement.name
  let (g, target) := place g statement.type
  g.setKind id (if (g.nameOf target).isSome then .union [target] else g.kind target)

/-- The graph of declarations, in their order. -/
def graphOf (statements : List Statement) : TypeGraph := statements.foldl define .empty

/-- The graph of the declarations in the text of a module. -/
def parseDeclarations (text : String) : Except GenerationError TypeGraph :=
  match readDeclarations text with
  | .ok statements => .ok (graphOf statements)
  | .error e => .error (.failed ("declaration syntax: " ++ e.message))

end TypedClient.Declaration
