import TypedClient.Api.PathTemplate
import TypedClient.Emit.Code
import TypedClient.Emit.OperationTypes

/-!
# What the emitted code offers

Everything that is emitted for a definition shows the same surface: types, operations and the names
that a module gives its client.

* `Call` is how the body of an emitted function calls an operation, and `callOf` makes it;
* `Surface` gathers the names and types, and `Surface.of` makes it from a definition.
-/

set_option autoImplicit false

namespace TypedClient.Emit

open TypedClient.Api TypedClient.Declaration TypedClient.Text TypedClient.Types

/-! ## Calls -/

/-- Text as it stands in a template literal. -/
def templateText (text : List Char) : List Char :=
  let escaped := text.flatMap fun c => if c = '\\' ∨ c = '\x60' then ['\\', c] else [c]
  replacePair '$' '\x7b' ['\\', '$', '\x7b'] escaped

/-- The expression for an argument of a request. -/
def accessor (fullRequest : Bool) (group name : String) : String :=
  if fullRequest then "request." ++ group ++ "?.[" ++ Json.quote name ++ "]"
  else "request[" ++ Json.quote name ++ "]"

/-- A piece of a path in a template literal; a placeholder becomes the encoded argument. -/
def pathPiece (fullRequest : Bool) : Piece → String
  | .literal text => String.ofList (templateText text)
  | .placeholder name =>
    let argument := accessor fullRequest "path" (String.ofList name)
    hole ("encodeURIComponent(String(" ++ argument ++ "))")

/-- The template literal for the path of a request. -/
def pathExpression (fullRequest : Bool) (path : String) : String :=
  let mark := String.singleton '\x60'
  mark ++ String.join ((pieces path.toList).map (pathPiece fullRequest)) ++ mark

/-- The expression for the arguments in one place of a request. -/
def groupExpression (fullRequest : Bool) (group : String) (parameters : List Parameter) : String :=
  if fullRequest then "request." ++ group
  else if parameters.isEmpty then "undefined"
  else
    record (parameters.map fun p =>
      Json.quote p.name ++ ": " ++ accessor false group p.name)

/-- The expression for the body of a request. -/
def bodyExpression (g : TypeGraph) (fullRequest : Bool) (op : Operation) : String :=
  match op.body? with
  | none => "undefined"
  | some body =>
    if fullRequest then "request.body"
    else if (bodyFields? g op body).isNone then accessor false "body" "body"
    else
      let names := (plainParameters op).map fun p => Json.quote p.name
      "omit(request, [" ++ ", ".intercalate names ++ "])"

/-- How an emitted function calls an operation. -/
structure Call where
  /-- The expression for the path. -/
  path : String
  /-- The expression for the arguments of the query. -/
  query : String
  /-- The expression for the headers. -/
  headers : String
  /-- The expression for the body. -/
  body : String
  /-- Whether the body is a form in several parts. -/
  multipart : Bool

/-- The call of an operation. -/
def callOf (g : TypeGraph) (fullRequest : Bool) (op : Operation) : Call where
  path := pathExpression fullRequest op.path
  query := groupExpression fullRequest "query" (op.parametersIn .query)
  headers := groupExpression fullRequest "headers" (op.parametersIn .header)
  body := bodyExpression g fullRequest op
  multipart := op.isMultipart

/-! ## The surface -/

/-- An operation in the emitted code. -/
structure Entry where
  /-- The operation. -/
  operation : Operation
  /-- The name of its function. -/
  function : String
  /-- Its types. -/
  types : OperationTypes
  /-- How its function calls it. -/
  call : Call

/-- What the emitted code for a definition offers. -/
structure Surface where
  /-- The first line of every file. -/
  header : String
  /-- The declarations of the named types. -/
  types : List Code
  /-- The operations. -/
  entries : List Entry
  /-- Whether the definition was read from a GraphQL schema. -/
  graphql : Bool
  /-- The base URL that functions start with. -/
  baseUrl : String
  /-- The name of the type of clients. -/
  clientType : String
  /-- The name of the type of client options. -/
  optionsType : String
  /-- The name of the client in a server. -/
  clientName : String
  /-- The name of the function that makes a client. -/
  factory : String
  /-- The name of the plugin function. -/
  plugin : String

/-- The type of the argument of the function that sends GraphQL requests. -/
def Surface.graphqlRequestType (s : Surface) : String :=
  match s.entries.getLast? with
  | some entry =>
    if s.graphql then entry.types.request ++ " & " ++ record ["headers?: Record<string, string>"]
    else "unknown"
  | none => "unknown"

/-- The type of what the function of an operation answers. -/
def Entry.returnType (e : Entry) : String := "Promise<" ++ e.types.responses ++ ">"

/-- The name of the request parameter; it has a question mark where the argument may be missing. -/
def Entry.requestName (e : Entry) : String :=
  if e.types.requestOptional then "request?" else "request"

/-- The names that the code for a browser uses itself. -/
def moduleNames : List String :=
  ["baseUrl", "defaultHeaders", "defaultFetchParams", "setBaseUrl", "setDefaultHeaders",
    "setDefaultFetchParams", "appendQuery", "omit", "call", "graphql", "routes"]

/-- Names the types of operations, in order. -/
def entryTypes (g : TypeGraph) (options : Options) (operations : List Operation) :
    Claims (List OperationTypes) :=
  operations.mapM (operationTypes g options)

/-- Names the functions of operations, in order. -/
def functionNames (operations : List Operation) : Claims (List String) :=
  operations.mapM fun op => claimName (Naming.valueName op.id)

/-- The first line of every file: title and version in one line. -/
def headerLine (api : Definition) : String :=
  let text := "// Generated by clientgen from " ++ api.title ++ " " ++ api.version ++
    ". Do not edit."
  String.ofList (text.toList.map fun c => if c = '\r' ∨ c = '\n' then ' ' else c)

/-- The surface of a definition.  Names of types are kept apart from those of the schema, and names
of functions from those the module uses itself. -/
def Surface.of (api : Definition) (options : Options) : Surface :=
  let base := Naming.typeName options.name
  let (clientType, taken) := claimName (base ++ "Client") (Dict.keys api.types.names)
  let (optionsType, taken) := claimName (base ++ "ClientOptions") taken
  let (types, _) := entryTypes api.types options api.operations taken
  let clientName := Naming.valueName options.name
  let factory := "generate" ++ base ++ "Client"
  let plugin := clientName ++ "Plugin"
  let (functions, _) := functionNames api.operations (factory :: plugin :: moduleNames)
  { header := headerLine api
    types := api.types.names.filterMap fun (_, id) => declaration? api.types options.style id
    entries :=
      (api.operations.zip (functions.zip types)).map fun (operation, function, types) =>
        { operation, function, types, call := callOf api.types options.fullRequest operation }
    graphql := api.kind = .graphql
    baseUrl := api.servers.head?.getD ""
    clientType, optionsType, clientName, factory, plugin }

end TypedClient.Emit
