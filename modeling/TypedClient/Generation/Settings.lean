import TypedClient.Api.Codec
import TypedClient.Api.Definition
import TypedClient.Emit.Options
import TypedClient.Json.Quoted
import TypedClient.Json.Reader
import TypedClient.Yaml.Shape

/-!
# Settings of a generation

A file can say which schema to read and what to emit, so that it need not be said again every time.

* `Settings` is what such a file says;
* `Settings.ofText` reads the text of a file and `Settings.load` a file: JSON if its name ends like
  that, and YAML otherwise.
-/

set_option autoImplicit false

namespace TypedClient.Generation

open Json TypedClient.Api

/-- Which schema to read and what to emit. -/
structure Settings where
  /-- The file of the schema. -/
  schema : Option String := none
  /-- The address of the schema, used if there is no file. -/
  url : Option String := none
  /-- Headers for the request of the schema. -/
  headers : Dict String := []
  /-- The kind of the schema, if it shall not be told by its members. -/
  kind : Option SchemaKind := none
  /-- What to emit. -/
  emit : Emit.Options := { }

namespace Settings

/-- The fields of settings. -/
def fieldNames : List String := ["schema", "url", "headers", "kind", "emit"]

/-- Reads settings. -/
def decode (value : Json) : Decoded Settings := do
  let record ← value.fields "GenerationConfig" fieldNames true
  return {
    schema := ← record.optional "schema" fun part => text part.1
    url := ← record.optional "url" fun part => text part.1
    headers := ← record.defaulted "headers" [] fun part => Json.dict text part.1
    kind := ← record.optional "kind" fun part => choice SchemaKind.options part.1
    emit := ← record.defaulted "emit" { } fun part => Emit.Options.decode part.1 }

/-- Settings as a value. -/
def encode (s : Settings) : Json :=
  .object [("schema", ofOption .string s.schema), ("url", ofOption .string s.url),
    ("headers", ofDict .string s.headers),
    ("kind", ofOption (fun kind => .string kind.text) s.kind), ("emit", s.emit.encode)]

/-- What the fields of the emit options are. -/
def emitShape : Yaml.Shape :=
  .record [("name", .text), ("flavor", .choice), ("full-request", .flag), ("full-response", .flag),
    ("module-format", .choice), ("typescript", .flag), ("props-optional", .flag),
    ("union-style", .choice), ("runtime-package", .text)]

/-- What the fields of settings are. -/
def shape : Yaml.Shape :=
  .record [("schema", .optional .text), ("url", .optional .text), ("headers", .dict .text),
    ("kind", .optional .choice), ("emit", emitShape)]

/-- Reads settings in JSON.  A field may stand there only once. -/
def ofJsonText (text : String) : Except GenerationError Settings :=
  match Json.readAsWritten 127 text with
  | none => .error (.json "malformed text")
  | some value => (decode value).mapError fun e => .json e.message

/-- Reads settings in YAML. -/
def ofYamlText (text : String) : Except GenerationError Settings :=
  match Yaml.readShaped shape text with
  | none => .error (.yaml "malformed text")
  | some value => (decode value).mapError fun e => .yaml e.message

/-- What follows the last point of the last name of a path, unless the name starts with it. -/
def extension? (path : String) : Option (List Char) :=
  let names := (Text.splitOn '/' path.toList).filter fun name => !name.isEmpty && name != ['.']
  match names.getLast? with
  | none | some ['.', '.'] => none
  | some name =>
    let ending := name.reverse.takeWhile (· != '.')
    if ending.length + 1 < name.length then some ending.reverse else none

/-- Whether a file is named as JSON, in upper or lower case. -/
def isJsonFile (path : String) : Bool :=
  (extension? path).any fun ending => ending.map Char.toLower == "json".toList

/-- Reads settings from the text of a file. -/
def ofText (path text : String) : Except GenerationError Settings :=
  if isJsonFile path then ofJsonText text else ofYamlText text

/-- Reads settings from a file, given its text or why it cannot be read. -/
def load (path : String) (contents : Except String String) : Except GenerationError Settings := do
  let text ← contents.mapError fun e =>
    .failed ("Failed to read config file " ++ Text.displayPath path ++ ": " ++ e)
  ofText path text

end Settings

end TypedClient.Generation
