import TypedClient.Emit.Surface

/-!
# The declarations of a client

Declarations are emitted in a file of their own, or inside a TypeScript module.  The file also
declares the functions that the module next to it defines.

* `clientInterface` and `optionsInterface` declare the client and the options it is made with;
* `ambient` declares the functions of a module;
* `declarations` puts everything together, and `standalone` makes the file of it.
-/

set_option autoImplicit false

namespace TypedClient.Emit

open TypedClient.Declaration

/-- The interface of a client: one method for each operation. -/
def clientInterface (s : Surface) : Code :=
  interfaceLines s.clientType (s.entries.map fun e =>
    let result := if s.graphql then "Promise<unknown>" else e.returnType
    memberLine (Naming.propertyKey e.operation.id ++ "(" ++ e.requestName ++ ": " ++
      e.types.request ++ "): " ++ result))

/-- The interface of the options that a client is made with. -/
def optionsInterface (s : Surface) : Code :=
  block ("export interface " ++ s.optionsType)
    ["url: string;", "path?: string;", "schemaUrl?: string;", "graphqlPath?: string;",
      "headers?: Record<string, string>;", "fullRequest?: boolean;", "fullResponse?: boolean;",
      "throwOnError?: boolean;", "validateResponse?: boolean;", "bodyTimeout?: number;",
      "headersTimeout?: number;", "retryTimeoutMs?: number;", "maxRetries?: number;",
      "getHeaders?(request: unknown): Promise<Record<string, string>>;"]

/-- The type of the table of routes. -/
def routesType : String := "Record<string, " ++ inBraces " path: string; method: string " ++ ">"

/-- The declaration of a function that another module defines. -/
def declaredFunction (words name parameter result : String) : String :=
  words ++ "function " ++ name ++ "(" ++ parameter ++ "): " ++ result ++ ";"

/-- The declarations of the functions that a browser module defines. -/
def ambientFrontend (s : Surface) : Code :=
  let declared := declaredFunction "export declare "
  [declared "setBaseUrl" "url: string" "void",
    declared "setDefaultHeaders" "headers: Record<string, string>" "void",
    declared "setDefaultFetchParams" "params: RequestInit" "void"] ++
  if s.graphql then [declared "graphql" ("request: " ++ s.graphqlRequestType) "Promise<unknown>"]
  else
    s.entries.map fun e =>
      declared e.function (e.requestName ++ ": " ++ e.types.request) e.returnType

/-- The declarations of what a plugin module defines. -/
def ambientPlugin (s : Surface) : Code :=
  ["export declare const routes: " ++ routesType ++ ";",
    declaredFunction "export declare " s.factory ("options: " ++ s.optionsType)
      ("Promise<" ++ s.clientType ++ ">"),
    declaredFunction "declare " s.plugin ("app: unknown, options: " ++ s.optionsType)
      "Promise<void>",
    "export default " ++ s.plugin ++ ";"]

/-- The declarations of the functions that a module of the given flavor defines. -/
def ambient (s : Surface) : Flavor → Code
  | .typesOnly => []
  | .frontend => ambientFrontend s
  | .fullNodePlugin => ambientPlugin s

/-- The declarations of types and of the client, behind a first line. -/
def declarationsBelow (header : String) (s : Surface) (flavor : Flavor) (ambient : Code) : Code :=
  let operations := s.entries.flatMap fun e => e.types.statements.map Statement.lines
  let options := if flavor = .fullNodePlugin then ["" :: optionsInterface s] else []
  tidy ([header] ++ (s.types ++ operations).flatMap ("" :: ·) ++ [""] ++ clientInterface s ++
    options.flatten ++ [""] ++ ambient)

/-- The declarations as part of a TypeScript module. -/
def declarations (s : Surface) (flavor : Flavor) : Code := declarationsBelow "" s flavor []

/-- The declarations as a file. -/
def standalone (s : Surface) (flavor : Flavor) : Code :=
  declarationsBelow s.header s flavor (ambient s flavor)

end TypedClient.Emit
