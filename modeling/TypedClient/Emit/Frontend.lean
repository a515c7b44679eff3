import TypedClient.Declaration.Syntax
import TypedClient.Emit.Declarations

/-!
# The browser module

The module for browsers needs no runtime: it brings its own functions to set defaults, to write
queries and to send requests, and then one function for each operation.

* `settings`, `appendQueryFunction`, `omitFunction` and `callFunction` are what every module has;
* `operationFunction` is the function of an operation, `graphqlFunction` the one that sends GraphQL
  requests;
* `frontendModule` is the module.
-/

set_option autoImplicit false

namespace TypedClient.Emit

/-- The path that GraphQL requests are sent to. -/
def graphqlPath : String := "/graphql"

/-- The variables of the module and the functions that set them. -/
def settings (d : Dialect) (s : Surface) : Code :=
  let setter := d.function d.exported
  ["let " ++ d.typed "baseUrl" "string" ++ " = " ++ Json.quote s.baseUrl,
    "let " ++ d.typed "defaultHeaders" "Record<string, string>" ++ " = " ++ emptyRecord,
    "let " ++ d.typed "defaultFetchParams" "RequestInit" ++ " = " ++ emptyRecord, ""] ++
  setter "setBaseUrl" [d.typed "url" "string"] "void"
    ["baseUrl = url.replace(/\\/+$/, '')"] ++
  [""] ++
  setter "setDefaultHeaders" [d.typed "headers" "Record<string, string>"] "void"
    (["defaultHeaders = " ++ emptyRecord] ++
      block "for (const [key, value] of Object.entries(headers))"
        ["defaultHeaders[key.toLowerCase()] = value"]) ++
  [""] ++
  setter "setDefaultFetchParams" [d.typed "params" "RequestInit"] "void"
    ["defaultFetchParams = params"]

/-- The function that adds an argument to the query.  Lists repeat the key, and objects put the
names of their members in brackets behind it. -/
def appendQueryFunction (d : Dialect) : Code :=
  let mark := String.singleton '\x60'
  let subKey := mark ++ hole "key" ++ "[" ++ hole "sub" ++ "]" ++ mark
  d.function "" "appendQuery"
    [d.typed "search" "URLSearchParams", d.typed "key" "string", d.typed "value" "unknown"] "void"
    (["if (value === undefined || value === null) return"] ++
      branches "if (Array.isArray(value))"
        ["for (const item of value) appendQuery(search, key, item)"]
        [("else if (typeof value === 'object')",
          ["for (const [sub, item] of Object.entries(value)) appendQuery(search, " ++ subKey ++
            ", item)"]),
        ("else", ["search.append(key, String(value))"])])

/-- The function that leaves members out of an object. -/
def omitFunction (d : Dialect) : Code :=
  d.function "" "omit" [d.typed "source" "object", d.typed "keys" "string[]"]
    "Record<string, unknown>"
    (["const " ++ d.typed "out" "Record<string, unknown>" ++ " = " ++ emptyRecord] ++
      block "for (const [key, value] of Object.entries(source))"
        ["if (!keys.includes(key)) out[key] = value"] ++
      ["return out"])

/-- What `call` answers: status, headers and body, or the body alone if the request succeeded. -/
def callAnswer (fullResponse : Bool) : Code :=
  let mark := String.singleton '\x60'
  if fullResponse then
    block "return"
      ["statusCode: response.status,",
        "headers: Object.fromEntries(response.headers.entries()),", "body: payload"]
  else
    block "if (!response.ok)"
      ["throw new Error(" ++ mark ++ hole "method" ++ " " ++ hole "path" ++
        " failed with status " ++ hole "response.status" ++ mark ++ ")"] ++
    ["return payload"]

/-- The function that sends a request. -/
def callFunction (d : Dialect) (fullResponse : Bool) : Code :=
  let mark := String.singleton '\x60'
  let query := hole ("qs ? " ++ mark ++ "?" ++ hole "qs" ++ mark ++ " : ''")
  let url := mark ++ hole "baseUrl" ++ hole "path" ++ query ++ mark
  d.function "async " "call"
    [d.typed "method" "string", d.typed "path" "string",
      d.typed "query" "Record<string, unknown> | undefined",
      d.typed "headers" "Record<string, unknown> | undefined", d.typed "body" "unknown",
      d.typed "multipart" "boolean"]
    "Promise<any>"
    (["const search = new URLSearchParams()",
      "for (const [key, value] of Object.entries(query ?? " ++ emptyRecord ++
        ")) appendQuery(search, key, value)",
      "const " ++ d.typed "requestHeaders" "Record<string, string>" ++ " = " ++
        record ["...defaultHeaders"]] ++
    block ("for (const [key, value] of Object.entries(headers ?? " ++ emptyRecord ++ "))")
      ["if (value !== undefined && value !== null) " ++
        "requestHeaders[key.toLowerCase()] = String(value)"] ++
    ["const " ++ d.typed "init" "RequestInit" ++ " = " ++
      record ["...defaultFetchParams", "method", "headers: requestHeaders"]] ++
    block "if (body !== undefined)"
      (branches "if (multipart)"
        ["init.body = body" ++ (if d.typescript then " as FormData" else "")]
        [("else",
          ["requestHeaders['content-type'] = 'application/json'",
            "init.body = JSON.stringify(body)"])]) ++
    ["const qs = search.toString()",
      "const response = await fetch(" ++ url ++ ", init)",
      "const text = await response.text()",
      "const contentType = response.headers.get('content-type') ?? ''",
      "const payload = text && contentType.includes('json') ? JSON.parse(text) : text"] ++
    callAnswer fullResponse)

/-- The function of an operation, with its summary in a comment. -/
def operationFunction (d : Dialect) (e : Entry) : Code :=
  let parameter := d.typed "request" e.types.request ++
    (if e.types.requestOptional then " = " ++ emptyRecord else "")
  let arguments :=
    [Json.quote e.operation.method.text, e.call.path, e.call.query, e.call.headers, e.call.body,
      if e.call.multipart then "true" else "false"]
  Declaration.docComment e.operation.summary "" ++
    d.function (d.exported ++ "async ") e.function [parameter] e.returnType
      ["return call(" ++ ", ".intercalate arguments ++ ")"]

/-- The function that sends GraphQL requests. -/
def graphqlFunction (d : Dialect) (fullResponse : Bool) (s : Surface) : Code :=
  d.function (d.exported ++ "async ") "graphql" [d.typed "request" s.graphqlRequestType]
    "Promise<unknown>"
    (["const " ++ record ["headers", "...body"] ++ " = request",
      "const payload = await call('POST', " ++ Json.quote graphqlPath ++
        ", undefined, headers, body, false)",
      "const result = " ++ (if fullResponse then "payload.body" else "payload")] ++
    block "if (Array.isArray(result.errors) && result.errors.length > 0)"
      ["throw new Error(result.errors.map((" ++ d.typed "error" "any" ++
        ") => error.message).join('; '))"] ++
    ["return result.data"])

/-- The browser module. -/
def frontendModule (d : Dialect) (options : Options) (s : Surface) : Code :=
  let entries := if s.graphql then [] else s.entries
  let exports :=
    ["setBaseUrl", "setDefaultHeaders", "setDefaultFetchParams"] ++ entries.map Entry.function ++
      (if s.graphql then ["graphql"] else [])
  let strict := if d.modules then [] else ["'use strict'"]
  let types := if d.typescript then declarations s options.flavor else []
  let graphql := if s.graphql then graphqlFunction d options.fullResponse s else []
  tidy ([s.header] ++ strict ++ types ++ [""] ++ settings d s ++ [""] ++
    appendQueryFunction d ++ [""] ++ omitFunction d ++ [""] ++
    callFunction d options.fullResponse ++
    entries.flatMap (fun e => "" :: operationFunction d e) ++ [""] ++ graphql ++ [""] ++
    (if d.modules then [] else ["module.exports = " ++ record exports]))

end TypedClient.Emit
