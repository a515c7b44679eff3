import TypedClient.Declaration.OfGraph
import TypedClient.Json.Basic
import TypedClient.Json.Decode

/-!
# What to emit

* `Options` says what is emitted for a definition, and in which form;
* `Options.decode` and `Options.encode` read and write it.
-/

set_option autoImplicit false

namespace TypedClient.Emit

open Json

/-- What the emitted code is for. -/
inductive Flavor where
  /-- A plugin that puts a client into a server. -/
  | fullNodePlugin
  /-- Functions for a browser. -/
  | frontend
  /-- Types alone. -/
  | typesOnly
  deriving DecidableEq, Repr

/-- The flavors by name. -/
def Flavor.options : List (String × Flavor) :=
  [("full-node-plugin", .fullNodePlugin), ("frontend", .frontend), ("types-only", .typesOnly)]

/-- The name of a flavor. -/
def Flavor.text : Flavor → String
  | .fullNodePlugin => "full-node-plugin"
  | .frontend => "frontend"
  | .typesOnly => "types-only"

/-- How modules import and export. -/
inductive ModuleFormat where
  /-- By import and export statements. -/
  | esm
  /-- By calls of `require` and assignments to `module.exports`. -/
  | cjs
  deriving DecidableEq, Repr

/-- The module formats by name. -/
def ModuleFormat.options : List (String × ModuleFormat) := [("esm", .esm), ("cjs", .cjs)]

/-- The name of a module format. -/
def ModuleFormat.text : ModuleFormat → String
  | .esm => "esm"
  | .cjs => "cjs"

/-- How unions are written. -/
inductive UnionStyle where
  /-- Member by member. -/
  | native
  /-- As what the members have in common. -/
  | widened
  deriving DecidableEq, Repr

/-- The union styles by name. -/
def UnionStyle.options : List (String × UnionStyle) := [("native", .native), ("widened", .widened)]

/-- The name of a union style. -/
def UnionStyle.text : UnionStyle → String
  | .native => "native"
  | .widened => "widened"

/-- What is emitted, and in which form. -/
structure Options where
  /-- The name of the client. -/
  name : String := "api"
  /-- What the code is for. -/
  flavor : Flavor := .fullNodePlugin
  /-- Whether operations take their arguments sorted by place. -/
  fullRequest : Bool := false
  /-- Whether operations answer status and headers beside the body. -/
  fullResponse : Bool := false
  /-- How modules import and export. -/
  moduleFormat : ModuleFormat := .esm
  /-- Whether the code is TypeScript, with the types in it. -/
  typescript : Bool := false
  /-- Whether members that are not required may be missing. -/
  propsOptional : Bool := true
  /-- How unions are written. -/
  unionStyle : UnionStyle := .native
  /-- The package that the plugin gets its runtime from. -/
  runtimePackage : String := "@clientgen/runtime"

namespace Options

/-- How types are written. -/
def style (o : Options) : Declaration.Style := ⟨o.propsOptional, o.unionStyle = .widened⟩

/-- The fields of the options. -/
def fieldNames : List String :=
  ["name", "flavor", "full-request", "full-response", "module-format", "typescript",
    "props-optional", "union-style", "runtime-package"]

/-- Reads options; a field that is missing keeps its value. -/
def decode (value : Json) : Decoded Options := do
  let record ← value.fields "EmitOptions" fieldNames true
  let d : Options := { }
  return {
    name := ← record.defaulted "name" d.name fun part => text part.1
    flavor := ← record.defaulted "flavor" d.flavor fun part => choice Flavor.options part.1
    fullRequest := ← record.defaulted "full-request" d.fullRequest fun part => flag part.1
    fullResponse := ← record.defaulted "full-response" d.fullResponse fun part => flag part.1
    moduleFormat :=
      ← record.defaulted "module-format" d.moduleFormat fun part =>
        choice ModuleFormat.options part.1
    typescript := ← record.defaulted "typescript" d.typescript fun part => flag part.1
    propsOptional := ← record.defaulted "props-optional" d.propsOptional fun part => flag part.1
    unionStyle :=
      ← record.defaulted "union-style" d.unionStyle fun part => choice UnionStyle.options part.1
    runtimePackage :=
      ← record.defaulted "runtime-package" d.runtimePackage fun part => text part.1 }

/-- Options as a value. -/
def encode (o : Options) : Json :=
  .ofMembers [("name", .string o.name), ("flavor", .string o.flavor.text),
    ("full-request", .bool o.fullRequest), ("full-response", .bool o.fullResponse),
    ("module-format", .string o.moduleFormat.text), ("typescript", .bool o.typescript),
    ("props-optional", .bool o.propsOptional), ("union-style", .string o.unionStyle.text),
    ("runtime-package", .string o.runtimePackage)]

end Options

end TypedClient.Emit
