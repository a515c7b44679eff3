import TypedClient.Declaration.Syntax

/-!
# Declarations of types

The nodes of a type graph are written as type expressions.  A named node is written by its name
wherever it is referred to, and has a declaration of its own: an interface if it is an object type,
and an alias otherwise.

* `expr` is the expression for a node;
* `statement?` is the declaration of a node, and `declaration?` its lines, comments included;
* `commonShape` is what the members of a union have in common, for the style that widens unions.
-/

set_option autoImplicit false

namespace TypedClient.Declaration

open TypedClient.Types

/-- How types are written. -/
structure Style where
  /-- Whether members that are not required may be missing. -/
  propsOptional : Bool
  /-- Whether unions are written as what their members have in common. -/
  widened : Bool

/-- The expression for a value of an enumeration; one for lists and objects does not exist. -/
def literalExpr : Json → TypeExpr
  | .array _ | .object _ => .unknown
  | .null => .primitive .null
  | value => .literal value

/-- The expression for one or several types. -/
def oneOrUnion : List TypeExpr → TypeExpr
  | [single] => single
  | members => .union members

/-- The members of an object type, given the expressions for their types. -/
def membersOf (style : Style) (expr : TypeId → TypeExpr) (fields : List Field) :
    List (Member TypeExpr) :=
  fields.map fun field =>
    ⟨field.name, !field.required && style.propsOptional, expr field.type⟩

/-- Whether a node is an anonymous enumeration or union of more than the given number of members. -/
def isChoice (g : TypeGraph) (id : TypeId) (enumeration union : Nat) : Bool :=
  (g.nameOf id).isNone &&
    match g.kind id with
    | .enumeration values => enumeration < values.length
    | .union members => union < members.length
    | _ => false

/-! ## What unions have in common -/

/-- The scalar type of a value. -/
def scalarOf : Json → Option Primitive
  | .string _ => some .string
  | .number _ => some .number
  | .bool _ => some .boolean
  | _ => none

/-- The scalar type that all values of a type have. -/
def scalarBase : TypeKind → Option Primitive
  | .primitive p => some p
  | .enumeration (first :: rest) =>
    let base := scalarOf first
    if rest.all fun value => scalarOf value == base then base else none
  | _ => none

/-- The fields of the first object type that all others have; one is required if it is in all. -/
def commonFields (fields : List Field) (others : List (List Field)) : List Field :=
  fields.filterMap fun field =>
    let counterpart (other : List Field) : Option Field := other.find? fun f => f.name = field.name
    (others.mapM counterpart).map fun matching =>
      { field with required := field.required && matching.all (·.required) }

/-- The shapes of the members of a union, aliases looked through and null left out. -/
def memberKinds (g : TypeGraph) (members : List TypeId) : List TypeKind :=
  (members.map fun id => g.kind (g.resolve id)).filter fun kind =>
    match kind with
    | .primitive .null => false
    | _ => true

/-- The fields that all shapes have in common, if all are object types. -/
def sharedFields? : List TypeKind → Option (List Field)
  | .object fields :: rest =>
    let others := rest.mapM fun kind =>
      match kind with
      | .object other => some other
      | _ => none
    others.map (commonFields fields)
  | _ => none

/-- What the members of a union have in common, null left out: the fields of object types, the list
or the scalar type; nothing is known of members of different sorts. -/
def commonShape (g : TypeGraph) (style : Style) (expr : TypeId → TypeExpr) (members : List TypeId) :
    TypeExpr :=
  match memberKinds g members with
  | [] => .primitive .null
  | .object fields :: rest =>
    match sharedFields? (.object fields :: rest) with
    | some shared => .object (membersOf style expr shared)
    | none => .unknown
  | first :: rest =>
    let isArray (kind : TypeKind) : Bool :=
      match kind with
      | .array _ => true
      | _ => false
    if isArray first && rest.all isArray then .array .unknown
    else
      match scalarBase first with
      | some base =>
        if rest.all fun kind => scalarBase kind == some base then .primitive base else .unknown
      | none => .unknown

/-! ## Expressions -/

/-- The expression for a union in the style that widens it: what the members have in common, with
the members in a comment. -/
def widenedExpr (g : TypeGraph) (style : Style) (expr : TypeId → TypeExpr)
    (members : List TypeId) : TypeExpr :=
  let listed := (TypeExpr.union (members.map expr)).text
  .noted (commonShape g style expr members) ("one of: " ++ String.ofList (inComment listed.toList))

/-- The expression for a shape, given the expressions for the nodes it refers to. -/
def kindExpr (g : TypeGraph) (style : Style) (expr : TypeId → TypeExpr) : TypeKind → TypeExpr
  | .unknown => .unknown
  | .primitive p => .primitive p
  | .object fields => .object (membersOf style expr fields)
  | .map value => .record (expr value)
  | .array item =>
    .array (if isChoice g item 1 1 then .group (expr item) else expr item)
  | .enumeration values => oneOrUnion (values.map literalExpr)
  | .union members =>
    if style.widened then
      if 1 < members.length then widenedExpr g style expr members
      else oneOrUnion (members.map expr)
    else
      oneOrUnion (members.map fun id =>
        if isEnumOrUnion id then .group (expr id) else expr id)
where
  /-- Whether a member of a union needs parentheses: enumerations do, whatever their size. -/
  isEnumOrUnion (id : TypeId) : Bool :=
    (g.nameOf id).isNone &&
      match g.kind id with
      | .enumeration _ => true
      | .union members => 1 < members.length
      | _ => false

/-- The nodes whose expressions the expression for a shape is made of.  What the members of a union
have in common is written with the types of the fields that they share. -/
def partsOf (g : TypeGraph) (style : Style) : TypeKind → List TypeId
  | .unknown | .primitive _ | .enumeration _ => []
  | .object fields => fields.map Field.type
  | .map value => [value]
  | .array item => [item]
  | .union members =>
    if style.widened && 1 < members.length then
      members ++ ((sharedFields? (memberKinds g members)).getD []).map Field.type
    else members

/-- The expression for a node, made of the expressions for others.  There is none if the descent to
these does not end, which happens to unions that are written as what their members have in
common. -/
def Style.expr? (style : Style) (g : TypeGraph) (id : TypeId) : Option TypeExpr :=
  match g.nameOf id with
  | some name => some (.name name)
  | none => do
    let parts ← (partsOf g style (g.kind id)).mapM fun part => do
      return (part, ← style |>.expr? g part)
    return kindExpr g style (fun part => (parts.lookup part).getD .unknown) (g.kind id)
partial_fixpoint

/-- The expression for a node that has one. -/
def expr (g : TypeGraph) (style : Style) (id : TypeId) : TypeExpr :=
  (style.expr? g id).getD .unknown

/-! ## Declarations -/

/-- The declaration of a named node. -/
def statement? (g : TypeGraph) (style : Style) (id : TypeId) : Option Statement :=
  (g.nameOf id).map fun name =>
    match g.kind id with
    | .object fields => .interface name (membersOf style (expr g style) fields)
    | kind => .typeAlias name (kindExpr g style (expr g style) kind)

/-- The lines of the declaration of a named node, with comments for the node and its fields. -/
def declaration? (g : TypeGraph) (style : Style) (id : TypeId) : Option (List String) :=
  (statement? g style id).map fun statement =>
    let body :=
      match g.kind id, statement with
      | .object fields, .interface name members =>
        interfaceLines name
          ((fields.zip (memberTexts members)).flatMap fun (field, member) =>
            docComment field.description "  " ++ [memberLine member])
      | _, statement => statement.lines
    docComment (g.node id).description "" ++ body

end TypedClient.Declaration
