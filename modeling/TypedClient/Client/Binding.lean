import TypedClient.Api.Operation
import TypedClient.Api.PathTemplate
import TypedClient.Client.Error
import TypedClient.Client.Query
import TypedClient.Client.Request
import TypedClient.Types.Check

/-!
# Binding arguments

The arguments of a call are put in the places that the operation declares for them.  Nothing is sent
before every argument has been looked at: first it is made sure that none is missing, then the body
is checked against its type, and then the other arguments.

* `Arguments` are arguments given side by side or sorted by place, and `Arguments.read` makes them
  of a value;
* `missing?` finds the first required argument that is missing;
* `bodyOf`, `placeAll` and `fillPath` make the parts of a request;
* `bind` puts it all together.
-/

set_option autoImplicit false

namespace TypedClient.Client

open TypedClient.Api TypedClient.Text TypedClient.Types

/-- What a caller passes for one call. -/
structure CallInput where
  /-- The arguments. -/
  arguments : Json := .null
  /-- The form in several parts. -/
  form : Option Form := none
  /-- Headers that come before all others. -/
  headers : Headers := .empty
  /-- The headers of the request that the call is made for. -/
  incoming : Headers := .empty
  /-- Headers that follow a request through a system. -/
  telemetry : Headers := .empty

/-! ## Arguments -/

/-- The arguments of a call. -/
inductive Arguments where
  /-- All arguments side by side. -/
  | flat (values : Dict Json)
  /-- The arguments sorted by place. -/
  | sorted (path query headers : Dict Json) (body : Option Json)

/-- A value that is not null. -/
def given? (value : Option Json) : Option Json := value.filter (!·.isNull)

/-- The names of the members of sorted arguments. -/
def groupNames : List String := ["path", "query", "headers", "body"]

/-- The arguments for one place. -/
def groupOf (values : Dict Json) (name : String) : Outcome (Dict Json) :=
  match Dict.get? values name with
  | none | some .null => .ok []
  | some (.object group) => .ok group
  | some other => .error (.wrongOption name ("expected an object, got " ++ other.kindName))

/-- Reads arguments sorted by place. -/
def readSorted (values : Dict Json) : Outcome Arguments :=
  match (Dict.keys values).find? (!groupNames.contains ·) with
  | some name =>
    .error (.wrongOption name "full requests take only path, query, headers and body")
  | none => do
    let path ← groupOf values "path"
    let query ← groupOf values "query"
    let headers ← groupOf values "headers"
    return .sorted path query headers (given? (Dict.get? values "body"))

namespace Arguments

/-- Reads arguments, side by side or sorted by place. -/
def read (fullRequest : Bool) (value : Json) : Outcome Arguments := do
  let values ←
    match value with
    | .null => .ok []
    | .object values => .ok values
    | other => .error (.wrongOption "args" ("expected an object, got " ++ other.kindName))
  if fullRequest then readSorted values else return .flat values

/-- The argument for a parameter outside the body.  Names of headers are the same in either case. -/
def valueOf (a : Arguments) (p : Parameter) : Option Json :=
  match a, p.location with
  | .flat values, _ => Dict.get? values p.name
  | .sorted path _ _ _, .path => Dict.get? path p.name
  | .sorted _ query _ _, .query => Dict.get? query p.name
  | .sorted _ _ headers _, .header =>
    (headers.find? fun entry => sameIgnoringCase entry.1 p.name).map Prod.snd
  | .sorted .., .body => none

end Arguments

/-- Whether a name is that of a parameter outside the body. -/
def isParameterName (op : Operation) (name : String) : Bool :=
  op.parameters.any fun p => p.location ≠ .body && p.name == name

namespace Arguments

/-- The arguments that are no parameters and so can only be meant for the body. -/
def leftOver (op : Operation) (values : Dict Json) : Dict Json :=
  values.filter fun entry => !isParameterName op entry.1

/-- Whether there are arguments that can only be meant for the body. -/
def hasBody (a : Arguments) (op : Operation) : Bool :=
  match a with
  | .flat values => !(leftOver op values).isEmpty
  | .sorted _ _ _ body => body.isSome

/-- The value for the body.  Side by side, the arguments left over are the members of a body that is
an object, and any other body has the name `body`. -/
def bodyValue? (a : Arguments) (op : Operation) (g : TypeGraph) (p : Parameter) : Option Json :=
  match a with
  | .sorted _ _ _ body => body
  | .flat values =>
    if (g.objectFields? p.type).isNone then given? (Dict.get? values "body")
    else
      let rest := leftOver op values
      if rest.isEmpty && !p.required then none else some (.object rest)

end Arguments

/-! ## Required arguments -/

/-- The first required field that an object body lacks. -/
def missingField? (g : TypeGraph) (p : Parameter) (body : Json) : Option String :=
  match g.objectFields? p.type, body with
  | some fields, .object members =>
    (fields.find? fun field =>
      field.required && (given? (Dict.get? members field.name)).isNone).map Field.name
  | _, _ => none

/-- The name of what a parameter requires and the arguments lack. -/
def lackOf (g : TypeGraph) (op : Operation) (a : Arguments) (body : Option Json) (p : Parameter) :
    Option String :=
  if !p.required then none
  else if p.location = .body then
    if op.isMultipart then none
    else
      match body with
      | none => some p.name
      | some body => missingField? g p body
  else if (given? (a.valueOf p)).isNone then some p.name
  else none

/-- The first required argument that is missing, in the order of the parameters. -/
def missing? (g : TypeGraph) (op : Operation) (a : Arguments) (body : Option Json) :
    Option String :=
  op.parameters.findSome? (lackOf g op a body)

/-! ## The body -/

/-- A body that has been checked, written as the operation declares it. -/
def writeBody (op : Operation) (body : Json) : Outcome Body :=
  match op.content with
  | none => .ok (.json body)
  | some content =>
    match content.kind, body with
    | .json, _ | .multipart, _ => .ok (.json body)
    | .formUrlEncoded, .object members => .ok (.urlEncoded (queryText members))
    | .formUrlEncoded, other =>
      .error (.wrongOption "body" ("form-encoded body must be an object, got " ++ other.kindName))
    | .other, body => .ok (.raw content.mediaType (encodeUtf8 (scalarText body)))

/-- The body of a request. -/
def bodyOf (g : TypeGraph) (op : Operation) (a : Arguments) (form : Option Form)
    (body : Option Json) : Outcome Body :=
  match op.isMultipart, form with
  | true, some form => .ok (.form form)
  | true, none =>
    if (op.body?.any (·.required)) || a.hasBody op then .error (.formRequired op.id) else .ok .empty
  | false, some _ =>
    .error (.wrongOption "body" ("operation " ++ op.id ++ " does not take a multipart form"))
  | false, none =>
    match body, op.body? with
    | some body, some p =>
      match check g p.type body with
      | .ok () => writeBody op body
      | .error mismatch => .error (.wrongOption "body" (mismatch.message g))
    | _, _ => .ok .empty

/-! ## The other arguments -/

/-- Whether a value is a text, a number or a truth value. -/
def isScalar : Json → Bool
  | .string _ | .number _ | .bool _ => true
  | _ => false

/-- Whether a value can be the argument of a parameter outside the body.  A list of scalars can
stand for a list type, and an object for an object type. -/
def fits (g : TypeGraph) (type : TypeId) (value : Json) : Bool :=
  match g.kind (g.resolve type), value with
  | .array _, .array items => items.all isScalar
  | .array _, value => isScalar value
  | .object _, .object _ | .map _, .object _ => true
  | .object _, _ | .map _, _ => false
  | .unknown, _ | .union _, _ => true
  | .primitive _, value | .enumeration _, value => isScalar value

/-- The text of an argument in a header; items of a list have commas between them. -/
def headerText : Json → String
  | .array items => ",".intercalate (items.map scalarText)
  | value => scalarText value

/-- The arguments outside the body, by place. -/
structure Placed where
  /-- The arguments of the path. -/
  path : Dict Json
  /-- The arguments of the query, in order. -/
  query : List (String × Json)
  /-- The arguments of the headers. -/
  headers : Headers

/-- Puts the argument for a parameter in its place. -/
def place (g : TypeGraph) (op : Operation) (a : Arguments) (placed : Placed) (p : Parameter) :
    Outcome Placed :=
  match given? (a.valueOf p) with
  | none => .ok placed
  | some value =>
    if !fits g p.type value then
      .error (.wrongOption p.name
        ("unexpected " ++ value.kindName ++ " for parameter of operation " ++ op.id))
    else
      match p.location with
      | .path => .ok { placed with path := Dict.insert placed.path p.name value }
      | .query => .ok { placed with query := placed.query ++ [(p.name, value)] }
      | .header => .ok { placed with headers := placed.headers.insert p.name (headerText value) }
      | .body => .ok placed

/-- Puts all arguments outside the body in their places. -/
def placeAll (g : TypeGraph) (op : Operation) (a : Arguments) : Outcome Placed :=
  (op.parameters.filter (·.location ≠ .body)).foldlM (place g op a) ⟨[], [], .empty⟩

/-- The segments of a path, with arguments in place of the placeholders that have one. -/
def fillPath (template : String) (arguments : Dict Json) : List String :=
  let segments := (splitOn '/' template.toList).filter (!·.isEmpty)
  let text (name : List Char) : Option (List Char) :=
    (Dict.get? arguments (String.ofList name)).map fun value => (scalarText value).toList
  segments.map fun segment => String.ofList (fill text segment)

/-! ## Bound requests -/

/-- A request whose arguments are in their places. -/
structure Bound where
  /-- The segments of the path, as plain text. -/
  segments : List String
  /-- The arguments of the query. -/
  query : List (String × Json)
  /-- The headers that parameters declare. -/
  headers : Headers
  /-- The body. -/
  body : Body

/-- Puts the arguments of a call in the places that the operation declares. -/
def bind (op : Operation) (g : TypeGraph) (input : CallInput) (fullRequest : Bool) :
    Outcome Bound := do
  let arguments ← Arguments.read fullRequest input.arguments
  let value := if op.isMultipart then none else op.body?.bind (arguments.bodyValue? op g)
  if let some name := missing? g op arguments value then
    throw (.missingParameter op.id name)
  let body ← bodyOf g op arguments input.form value
  let placed ← placeAll g op arguments
  return ⟨fillPath op.path placed.path, placed.query, placed.headers, body⟩

end TypedClient.Client
