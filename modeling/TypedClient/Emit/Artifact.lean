import TypedClient.Emit.Frontend
import TypedClient.Emit.Plugin

/-!
# Artifacts

An artifact is a file that is emitted for a definition.  The same definition and options always give
the same artifacts, character by character.

* `Artifact` is a file, and `Artifact.fileName` its name;
* `emit` makes all artifacts: declarations alone, one TypeScript module, or a JavaScript module with
  declarations beside it.
-/

set_option autoImplicit false

namespace TypedClient.Emit

open TypedClient.Api

/-- What an artifact contains. -/
inductive ArtifactKind where
  /-- Code alone. -/
  | bindings
  /-- Declarations alone. -/
  | declarations
  /-- Code and declarations. -/
  | combined
  deriving DecidableEq, Repr

/-- The name of a kind of artifact. -/
def ArtifactKind.text : ArtifactKind → String
  | .bindings => "bindings"
  | .declarations => "declarations"
  | .combined => "combined"

/-- The language of an artifact. -/
inductive Language where
  /-- JavaScript. -/
  | javaScript
  /-- TypeScript. -/
  | typeScript
  deriving DecidableEq, Repr

/-- The short name of a language. -/
def Language.text : Language → String
  | .javaScript => "js"
  | .typeScript => "ts"

/-- A file that is emitted. -/
structure Artifact where
  /-- What it contains. -/
  kind : ArtifactKind
  /-- What it is for. -/
  flavor : Flavor
  /-- Its language. -/
  language : Language
  /-- How it imports and exports. -/
  moduleFormat : ModuleFormat
  /-- Its name without extension. -/
  stem : String
  /-- Its text. -/
  contents : String

/-- The extension that kind and language call for. -/
def Artifact.extension (a : Artifact) : String :=
  match a.kind, a.language, a.moduleFormat with
  | .declarations, _, _ => "d.ts"
  | _, .typeScript, _ => "ts"
  | _, .javaScript, .esm => "mjs"
  | _, .javaScript, .cjs => "cjs"

/-- The name of the file. -/
def Artifact.fileName (a : Artifact) : String := a.stem ++ "." ++ a.extension

/-- The name of the files of a client without extension: its words in lower case with hyphens
between them. -/
def fileStem (name : String) : String :=
  match Naming.words name with
  | [] => "client"
  | words => Text.lowerText ("-".intercalate words)

/-- The dialect of the code. -/
def Options.dialect (o : Options) : Dialect :=
  ⟨o.typescript, o.typescript || o.moduleFormat = .esm⟩

/-- The code of a surface: a plugin module, or else a browser module. -/
def bindings (options : Options) (s : Surface) : Code :=
  match options.flavor with
  | .fullNodePlugin => pluginModule options.dialect options s
  | .frontend | .typesOnly => frontendModule options.dialect options s

/-- The artifacts for a definition. -/
def emit (api : Definition) (options : Options) : List Artifact :=
  let s := Surface.of api options
  let artifact (kind : ArtifactKind) (language : Language) (code : Code) : Artifact :=
    ⟨kind, options.flavor, language, options.moduleFormat, fileStem options.name, textOf code⟩
  let declared := artifact .declarations .typeScript (standalone s options.flavor)
  match options.flavor with
  | .typesOnly => [declared]
  | .frontend | .fullNodePlugin =>
    if options.typescript then [artifact .combined .typeScript (bindings options s)]
    else [artifact .bindings .javaScript (bindings options s), declared]

end TypedClient.Emit
