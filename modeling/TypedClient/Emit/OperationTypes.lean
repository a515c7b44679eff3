import TypedClient.Api.Definition
import TypedClient.Emit.Options
import TypedClient.Naming.Identifier

/-!
# Types of operations

Every operation gets types of its own: one for requests, one for each response, and one for all
responses together.  A request is either flat, with all arguments side by side, or has one member
for each place an argument can go.

* `flatMembers` and `groupedMembers` are the two forms of requests;
* `responseStatement` declares the type of a response;
* `operationTypes` names and declares the types of an operation.
-/

set_option autoImplicit false

namespace TypedClient.Emit

open TypedClient.Api TypedClient.Declaration TypedClient.Types

/-- A computation that takes names nobody else has taken. -/
abbrev Claims := StateM (List String)

/-- Takes the candidate or a numbered variant of it. -/
def claimName (candidate : String) : Claims String := fun taken => Naming.claim taken candidate

/-- A member that may be missing if it is not required and the style allows for that. -/
def memberOf (style : Style) (name : String) (required : Bool) (type : TypeExpr) :
    Member TypeExpr :=
  ⟨name, !required && style.propsOptional, type⟩

/-- The members for parameters. -/
def parameterMembers (g : TypeGraph) (style : Style) (parameters : List Parameter) :
    List (Member TypeExpr) :=
  parameters.map fun p => memberOf style p.name p.required (expr g style p.type)

/-- The type of forms in several parts. -/
def formType : TypeExpr := .name "FormData"

/-- The type of a request body as one member. -/
def bodyType (g : TypeGraph) (style : Style) (op : Operation) (body : Parameter) : TypeExpr :=
  if op.isMultipart then formType else expr g style body.type

/-- The fields of a request body that is an object, unless it is a form in several parts. -/
def bodyFields? (g : TypeGraph) (op : Operation) (body : Parameter) : Option (List Field) :=
  if op.isMultipart then none else g.objectFields? body.type

/-- The parameters of an operation outside the body. -/
def plainParameters (op : Operation) : List Parameter :=
  op.parameters.filter (·.location ≠ .body)

/-- The members with one more behind them, unless there is one of that name. -/
def addMember (members : List (Member TypeExpr)) (new : Member TypeExpr) :
    List (Member TypeExpr) :=
  if members.any (·.name == new.name) then members else members ++ [new]

/-- The members of a flat request: the parameters, and the fields of an object body beside them.  Of
several members of one name the first stays. -/
def flatMembers (g : TypeGraph) (style : Style) (op : Operation) : List (Member TypeExpr) :=
  let members := parameterMembers g style (plainParameters op)
  match op.body? with
  | none => members
  | some body =>
    let added :=
      match bodyFields? g op body with
      | some fields =>
        fields.map fun (field : Field) =>
          memberOf style field.name (field.required && body.required) (expr g style field.type)
      | none => [memberOf style "body" body.required (bodyType g style op body)]
    added.foldl addMember members

/-- The members of a request sorted by place: an object of parameters for every place that has some,
and the body. -/
def groupedMembers (g : TypeGraph) (style : Style) (op : Operation) : List (Member TypeExpr) :=
  let group (location : Location) (name : String) : List (Member TypeExpr) :=
    match op.parametersIn location with
    | [] => []
    | parameters =>
      [memberOf style name (parameters.any (·.required))
        (.object (parameterMembers g style parameters))]
  let body :=
    op.body?.map fun body => memberOf style "body" body.required (bodyType g style op body)
  group .path "path" ++ group .query "query" ++ group .header "headers" ++ body.toList

/-- The type of the body of a response: that of JSON content, else of the first content with a
type. -/
def responseBody (g : TypeGraph) (style : Style) (response : Response) : TypeExpr :=
  let typed := response.content.filter (·.type.isSome)
  match (typed.find? fun media => isJson media.mediaType) <|> typed.head? with
  | some ⟨_, some type⟩ => expr g style type
  | _ => .unknown

/-- The declaration of a response: its body, or status, headers and body. -/
def responseStatement (g : TypeGraph) (options : Options) (name : String) (response : Response) :
    Statement :=
  let body := responseBody g options.style response
  if options.fullResponse then
    let status :=
      match response.status with
      | .code code => .literal (.ofNat code)
      | .range _ | .default => .primitive .number
    .interface name
      [⟨"statusCode", false, status⟩, ⟨"headers", false, .record (.primitive .string)⟩,
        ⟨"body", false, body⟩]
  else .typeAlias name body

/-- The types of an operation. -/
structure OperationTypes where
  /-- The name of the type of requests. -/
  request : String
  /-- The name of the type of responses. -/
  responses : String
  /-- Whether a request may be empty. -/
  requestOptional : Bool
  /-- The declarations. -/
  statements : List Statement

/-- Names the responses of an operation and declares each. -/
def responseStatements (g : TypeGraph) (options : Options) (base : String)
    (responses : List Response) : Claims (List Statement) :=
  responses.mapM fun response => do
    let name ← claimName (base ++ "Response" ++ response.status.label)
    return responseStatement g options name response

/-- Names and declares the types of an operation. -/
def operationTypes (g : TypeGraph) (options : Options) (op : Operation) :
    Claims OperationTypes := do
  let base := Naming.typeName op.id
  let members :=
    if options.fullRequest then groupedMembers g options.style op
    else flatMembers g options.style op
  let request ← claimName (base ++ "Request")
  let declared ← responseStatements g options base op.responses
  let responses ← claimName (base ++ "Responses")
  let either :=
    match declared with
    | [] => .unknown
    | declared => oneOrUnion (declared.map fun statement => .name statement.name)
  return {
    request
    responses
    requestOptional := members.all (·.optional)
    statements := [.interface request members] ++ declared ++ [.typeAlias responses either] }

end TypedClient.Emit
