import TypedClient.CommandLine.Arguments
import TypedClient.CommandLine.Surroundings
import TypedClient.Document
import TypedClient.Emit.Artifact
import TypedClient.Generation.Settings
import TypedClient.Json.Printer
import TypedClient.Types.Describe

/-!
# Runs

* `run` carries out a command line and answers a `Report`: what it said and how it ended;
* `inspect` and `generate` are the two commands;
* `Problem` is why a command did not come to its end, and `Problem.text` words it with its causes.
-/

set_option autoImplicit false

namespace TypedClient.CommandLine

open TypedClient.Api TypedClient.Client TypedClient.Generation TypedClient.Text

/-! ## Problems -/

/-- Why a command did not come to its end. -/
structure Problem where
  /-- What was being done. -/
  context : String
  /-- What went wrong, and then what is behind that. -/
  causes : List String := []

namespace Problem

/-- A cause, with the given text before its first line and before the others. -/
def indented (first others cause : String) : String :=
  first ++ ("\n" ++ others).intercalate ((splitOn '\n' cause.toList).map String.ofList)

/-- The causes, of which several are counted. -/
def causeLines : List String → List String
  | [cause] => [indented "    " "    " cause]
  | causes =>
    causes.zipIdx.map fun (cause, n) =>
      let number := toString n
      indented (String.ofList (List.replicate (5 - number.length) ' ') ++ number ++ ": ")
        "       " cause

/-- The wording of a problem. -/
def text (p : Problem) : String :=
  match p.causes with
  | [] => p.context
  | causes => p.context ++ "\n\nCaused by:\n" ++ "\n".intercalate (causeLines causes)

end Problem

/-- What is behind an error: a file or a text that cannot be read has a cause of its own. -/
def causesOf (e : GenerationError) : List String :=
  match e with
  | .io detail | .json detail | .yaml detail => [e.message, detail]
  | _ => [e.message]

/-! ## Running -/

/-- A run: it says something line by line, and may end with a problem. -/
abbrev Run (m : Type → Type) := ExceptT Problem (StateT String m)

section

variable {m : Type → Type} [Monad m]

/-- Says a line. -/
def say (line : String) : Run m Unit := modify fun said => said ++ line ++ "\n"

/-- Says several lines. -/
def sayAll (lines : List String) : Run m Unit := lines.forM say

/-- Does something to the outside. -/
def perform {α : Type} (action : m α) : Run m α := monadLift action

/-- The value of a result; an error ends the run. -/
def orStop {α : Type} (context : String) : Except GenerationError α → Run m α
  | .ok value => pure value
  | .error e => throw ⟨context, causesOf e⟩

/-- Reads and normalizes the schema of settings. -/
def loadSchema (outside : Surroundings m) (s : Settings) : Run m Definition := do
  match s.schema, s.url with
  | some path, _ =>
    say ("→ Reading schema: " ++ path)
    let contents ← perform (outside.read path)
    orStop ("Failed to load schema " ++ path) (normalizeFile path contents s.kind)
  | none, some url =>
    say ("→ Fetching schema: " ++ url)
    match ← perform (outside.download url (.ofList s.headers)) with
    | .error e => throw ⟨"Failed to fetch schema from " ++ url, [e]⟩
    | .ok text => orStop "Failed to normalize schema" (normalizeText text s.kind)
  | none, none => throw ⟨"either --schema or --url is required", []⟩

end

/-! ## Showing a schema -/

/-- The settings with another source of the schema, as far as one is given. -/
def withSource (s : Settings) (source : Source) : Settings :=
  let s :=
    match source.schema, source.url with
    | _, some url => { s with url := some url, schema := none }
    | some schema, none => { s with schema := some schema, url := none }
    | none, none => s
  { s with
    headers := Dict.overlay s.headers source.headers
    kind := source.kind <|> s.kind }

/-- The place of a parameter as it is shown. -/
def locationLabel : Location → String
  | .path => "Path"
  | .query => "Query"
  | .header => "Header"
  | .body => "Body"

/-- A text followed by blanks up to a width. -/
def padded (width : Nat) (text : String) : String :=
  text ++ String.ofList (List.replicate (width - text.length) ' ')

/-- The line for an operation. -/
def operationLine (op : Operation) : String :=
  "  • " ++ op.id ++ " " ++ padded 6 op.method.text ++ " " ++ op.path

/-- The line for a parameter. -/
def parameterLine (api : Definition) (p : Parameter) : String :=
  "    " ++ locationLabel p.location ++ " " ++ p.name ++ (if p.required then "" else "?") ++ " " ++
    api.types.describe p.type

/-- The line for a response. -/
def responseLine (r : Api.Response) : String :=
  "    → " ++ r.status.label ++ " " ++ ", ".intercalate (r.content.map Media.mediaType)

/-- The lines for an operation. -/
def operationLines (api : Definition) (verbose : Bool) (op : Operation) : List String :=
  operationLine op ::
    if verbose then op.parameters.map (parameterLine api) ++ op.responses.map responseLine else []

/-- What a definition is, in short. -/
def summaryLines (api : Definition) (verbose : Bool) : List String :=
  ["", "✓ Schema normalized!", "", "API Definition:", "  Title: " ++ api.title,
    "  Version: " ++ api.version, "  Kind: " ++ api.kind.text] ++
  (if api.servers.isEmpty then [] else ["  Servers: " ++ ", ".intercalate api.servers]) ++
  ["  Operations: " ++ toString api.operations.length,
    "  Named types: " ++ toString api.types.names.length] ++
  (if api.operations.isEmpty then []
   else ["", "Operations:"] ++ api.operations.flatMap (operationLines api verbose))

section

variable {m : Type → Type} [Monad m]

/-- Shows a schema. -/
def inspect (outside : Surroundings m) (source : Source) (json verbose : Bool) : Run m Unit := do
  let api ← loadSchema outside (withSource { } source)
  if json then say api.encode.pretty else sayAll (summaryLines api verbose)

end

/-! ## Writing a client -/

/-- Options with the given changes. -/
def withChanges (o : Emit.Options) (changes : Changes) : Emit.Options :=
  { o with
    name := changes.name.getD o.name
    flavor := changes.flavor.getD o.flavor
    moduleFormat := changes.moduleFormat.getD o.moduleFormat
    propsOptional := changes.propsOptional.getD o.propsOptional
    fullRequest := o.fullRequest || changes.fullRequest
    fullResponse := o.fullResponse || changes.fullResponse
    typescript := o.typescript || changes.typescript
    unionStyle := if changes.widenUnions then .widened else o.unionStyle }

/-- The path of a file in a directory. -/
def joinPath (directory file : String) : String :=
  if directory.isEmpty || directory.endsWith "/" then directory ++ file
  else directory ++ "/" ++ file

/-- What is emitted, line by line. -/
def optionLines (o : Emit.Options) (output : String) : List String :=
  ["  Flavor: " ++ o.flavor.text, "  Module: " ++ o.moduleFormat.text,
    "  TypeScript: " ++ toString o.typescript, "  Full request: " ++ toString o.fullRequest,
    "  Full response: " ++ toString o.fullResponse, "  Output: " ++ output]

section

variable {m : Type → Type} [Monad m]

/-- Writes artifacts into a directory and answers their paths. -/
def writeArtifacts (outside : Surroundings m) (artifacts : List Emit.Artifact) (output : String) :
    Run m (List String) := do
  let context := "Failed to write artifacts"
  let made ← perform (outside.makeDirectory output)
  orStop context (made.mapError fun e => .failed ("Failed to create output directory: " ++ e))
  artifacts.mapM fun artifact => do
    let path := joinPath output artifact.fileName
    orStop context ((← perform (outside.write path artifact.contents)).mapError .io)
    return path

/-- Reads the settings of a file; without one they are the usual ones. -/
def loadSettings (outside : Surroundings m) : Option String → Run m Settings
  | none => pure { }
  | some path => do
    orStop ("Failed to load config " ++ path) (Settings.load path (← perform (outside.read path)))

/-- Writes the files of a client. -/
def generate (outside : Surroundings m) (s : Settings) (output : String) (verbose : Bool) :
    Run m Unit := do
  say ("→ Generating client: " ++ s.emit.name)
  if verbose then sayAll (optionLines s.emit output)
  let api ← loadSchema outside s
  say ("✓ Parsed " ++ toString api.operations.length ++ " operations from " ++ api.title ++ " " ++
    api.version)
  say "→ Emitting artifacts..."
  let written ← writeArtifacts outside (Emit.emit api s.emit) output
  sayAll (["", "✓ Generation complete!", "", "Generated files:"] ++
    written.map fun path => "  📄 " ++ path)

/-- Carries out an invocation. -/
def Invocation.run (outside : Surroundings m) (i : Invocation) : Run m Unit := do
  if i.verbose then say "→ Verbose mode enabled"
  match i.command with
  | .inspect source json => inspect outside source json i.verbose
  | .generate source config changes output =>
    let s := withSource (← loadSettings outside config) source
    generate outside { s with emit := withChanges s.emit changes } output i.verbose

end

/-! ## Reports -/

/-- How a run ended. -/
structure Report where
  /-- The exit code: 0 if all went well, 1 if not, and 2 if the command line was wrong. -/
  exitCode : Nat
  /-- What it said. -/
  output : String
  /-- What it complained about. -/
  complaint : String

/-- How the program is called. -/
def usageText : String :=
  "Usage: clientgen [--verbose] inspect [OPTIONS]\n" ++
  "       clientgen [--verbose] generate [OPTIONS]\n"

/-- The report on a command line that is not carried out. -/
def Stop.report : Stop → Report
  | .usage => ⟨2, "", usageText⟩
  | .help => ⟨0, usageText, ""⟩
  | .version => ⟨0, "clientgen 0.4.1\n", ""⟩

/-- Carries out a command line. -/
def run {m : Type → Type} [Monad m] (outside : Surroundings m) (words : List String) :
    m Report := do
  match Invocation.read words with
  | .error stop => return stop.report
  | .ok invocation =>
    match ← ((invocation.run outside).run.run "") with
    | (.ok (), said) => return ⟨0, said, ""⟩
    | (.error problem, said) => return ⟨1, said, "Error: " ++ problem.text ++ "\n"⟩

end TypedClient.CommandLine
