import TypedClient.Emit.Declarations

/-!
# The plugin module

A plugin builds a client when a server starts and puts it into every request.  The work of the
client is done by a runtime package; the module only tells it the routes and the options.
-/

set_option autoImplicit false

namespace TypedClient.Emit

/-- The function of the runtime that builds the client. -/
def builder (s : Surface) : String :=
  if s.graphql then "buildGraphQLClient" else "buildOpenAPIClient"

/-- The table of routes. -/
def routesTable (d : Dialect) (s : Surface) : Code :=
  let route (e : Entry) : String :=
    Naming.propertyKey e.operation.id ++ ": " ++
      record ["path: " ++ Json.quote e.operation.path,
        "method: " ++ Json.quote e.operation.method.text] ++ ","
  block (d.exported ++ "const " ++ d.typed "routes" routesType ++ " =") (s.entries.map route)

/-- A truth value in code. -/
def flagText (value : Bool) : String := if value then "true" else "false"

/-- The function that makes a client. -/
def factoryFunction (d : Dialect) (options : Options) (s : Surface) : Code :=
  let fullRequest :=
    if s.graphql then [] else ["fullRequest: " ++ flagText options.fullRequest ++ ","]
  let settings :=
    ["clientName: " ++ Json.quote s.clientName ++ ","] ++ fullRequest ++
      ["fullResponse: " ++ flagText options.fullResponse ++ ",", "...options"]
  d.function (d.exported ++ "async ") s.factory [d.typed "options" s.optionsType]
    ("Promise<" ++ s.clientType ++ ">")
    (enclosed ("return " ++ builder s ++ "(") settings (if s.graphql then ")" else ", routes)"))

/-- The function that puts the client into a server. -/
def pluginFunction (d : Dialect) (s : Surface) : Code :=
  let name := Json.quote s.clientName
  d.function "async " s.plugin [d.typed "app" "any", d.typed "options" s.optionsType]
    "Promise<void>"
    (["const client = await " ++ s.factory ++ "(options)",
      "app.decorateRequest(" ++ name ++ ", null)"] ++
    enclosed ("app.addHook('onRequest', async (" ++ d.typed "request" "any" ++ ") => ")
      ["request[" ++ name ++ "] = client"] ")")

/-- The plugin module. -/
def pluginModule (d : Dialect) (options : Options) (s : Surface) : Code :=
  let package := Json.quote options.runtimePackage
  let names := record [builder s]
  let imports :=
    if d.modules then ["import " ++ names ++ " from " ++ package]
    else ["'use strict'", "", "const " ++ names ++ " = require(" ++ package ++ ")"]
  let exports :=
    if d.modules then ["export default " ++ s.plugin]
    else
      ["module.exports = " ++ record ["routes", s.factory, s.plugin],
        "module.exports.default = " ++ s.plugin]
  let types := if d.typescript then declarations s options.flavor else []
  tidy ([s.header] ++ imports ++ types ++ [""] ++ routesTable d s ++ [""] ++
    factoryFunction d options s ++ [""] ++ pluginFunction d s ++ [""] ++ exports)

end TypedClient.Emit
