import TypedClient.Api.Codec
import TypedClient.Client.Headers
import TypedClient.Emit.Options

/-!
# Command-line arguments

A command line is a list of words.  Words that start with a hyphen are options: `--name value`,
`--name=value`, `-n value`, `-nvalue` and `-n=value` are the same, and short options without a value
can be joined.  The first other word is the command.

* `Switch` is an option that a command knows, and `readOptions` reads options up to the first word
  that is none;
* `Invocation` is what a command line asks for, and `Invocation.read` reads it.  Words are looked at
  from left to right, so a request for help counts only if everything before it is right.
-/

set_option autoImplicit false

namespace TypedClient.CommandLine

open TypedClient.Api TypedClient.Text

/-- Why a command line is not carried out. -/
inductive Stop where
  /-- It is wrong. -/
  | usage
  /-- It asks for help. -/
  | help
  /-- It asks for the version. -/
  | version
  deriving DecidableEq

/-! ## Options -/

/-- An option that a command knows. -/
structure Switch where
  /-- Its long name. -/
  long : String
  /-- Its short name. -/
  short : Option Char
  /-- Which values it takes, if it takes one. -/
  value : Option (String → Bool)
  /-- Whether it may be given more than once. -/
  isRepeatable : Bool := false

/-- Options that were given, with their values, in order. -/
abbrev Given := List (String × String)

namespace Given

/-- Whether an option was given. -/
def has (g : Given) (name : String) : Bool := g.any (·.1 == name)

/-- The values of an option. -/
def values (g : Given) (name : String) : List String :=
  (g.filter (·.1 == name)).map Prod.snd

/-- The value of an option. -/
def value? (g : Given) (name : String) : Option String := (g.values name).head?

/-- Adds an option that takes no value. -/
def addFlag (g : Given) (s : Switch) : Except Stop Given :=
  if s.long = "help" then .error .help
  else if s.long = "version" then .error .version
  else if g.has s.long then .error .usage
  else .ok (g ++ [(s.long, "")])

/-- Adds an option with a value. -/
def addValue (g : Given) (s : Switch) (value : String) : Except Stop Given :=
  if (s.value.any fun fits => fits value) && (s.isRepeatable || !g.has s.long) then
    .ok (g ++ [(s.long, value)])
  else .error .usage

end Given

/-- Reads one word of short options, after its hyphen.  An option that still lacks its value comes
second. -/
def readShort (switches : List Switch) (g : Given) : List Char →
    Except Stop (Given × Option Switch)
  | [] => .ok (g, none)
  | c :: rest =>
    match switches.find? (·.short == some c) with
    | none => .error .usage
    | some s =>
      match s.value, rest with
      | none, rest => do readShort switches (← g.addFlag s) rest
      | some _, [] => .ok (g, some s)
      | some _, '=' :: value => do return (← g.addValue s (.ofList value), none)
      | some _, value => do return (← g.addValue s (.ofList value), none)

/-- Reads one long option, after its hyphens.  An option that still lacks its value comes second. -/
def readLong (switches : List Switch) (g : Given) (text : List Char) :
    Except Stop (Given × Option Switch) :=
  let name := String.ofList (text.takeWhile (· != '='))
  match switches.find? (·.long == name) with
  | none => .error .usage
  | some s =>
    match s.value, text.dropWhile (· != '=') with
    | none, [] => do return (← g.addFlag s, none)
    | none, _ => .error .usage
    | some _, [] => .ok (g, some s)
    | some _, _ :: value => do return (← g.addValue s (.ofList value), none)

/-- Whether a word stands for itself: a single hyphen does. -/
def isPlain (word : String) : Bool := word.toList.head? != some '-' || word == "-"

/-- Reads options, and answers the words from the first one that is none. -/
def readOptions (switches : List Switch) (g : Given) : List String →
    Except Stop (Given × List String)
  | [] => .ok (g, [])
  | word :: rest => do
    if isPlain word then return (g, word :: rest)
    if word == "--" then
      if rest.isEmpty then return (g, []) else throw .usage
    let (g, open?) ←
      match word.toList with
      | '-' :: '-' :: text => readLong switches g text
      | text => readShort switches g (text.drop 1)
    match open?, rest with
    | none, rest => readOptions switches g rest
    | some _, [] => throw .usage
    | some s, value :: rest =>
      if isPlain value then readOptions switches (← g.addValue s value) rest else throw .usage

/-! ## Values -/

/-- Reads a header, written as a name, a colon and a value. -/
def readHeader (text : String) : Option (String × String) :=
  match text.toList.dropWhile (· != ':') with
  | [] => none
  | _ :: value =>
    let name := trim (text.toList.takeWhile (· != ':'))
    if name.isEmpty then none else some (.ofList name, .ofList (trim value))

/-- Reads a truth value. -/
def readFlag : String → Option Bool
  | "true" => some true
  | "false" => some false
  | _ => none

/-- The value of an option among choices. -/
def Given.choice? {α : Type} (g : Given) (name : String) (options : List (String × α)) : Option α :=
  (g.value? name).bind fun value => List.lookup value options

/-- An option that takes no value. -/
def Switch.flag (long : String) (short : Option Char := none) : Switch := ⟨long, short, none, false⟩

/-- An option that takes any value. -/
def Switch.text (long : String) (short : Option Char) : Switch :=
  ⟨long, short, some fun _ => true, false⟩

/-- An option that takes a path. -/
def Switch.path (long : String) (short : Option Char) : Switch :=
  ⟨long, short, some fun value => !value.isEmpty, false⟩

/-- An option that takes the name of a choice. -/
def Switch.choice {α : Type} (long : String) (short : Option Char) (options : List (String × α)) :
    Switch :=
  ⟨long, short, some fun value => (options.lookup value).isSome, false⟩

/-! ## Commands -/

/-- Where a schema comes from. -/
structure Source where
  /-- The file. -/
  schema : Option String
  /-- The address. -/
  url : Option String
  /-- Headers for the request of the schema. -/
  headers : List (String × String)
  /-- The kind of the schema. -/
  kind : Option SchemaKind

/-- What is emitted otherwise than settings say. -/
structure Changes where
  /-- The name of the client. -/
  name : Option String
  /-- What the code is for. -/
  flavor : Option Emit.Flavor
  /-- How modules import and export. -/
  moduleFormat : Option Emit.ModuleFormat
  /-- Whether members that are not required may be missing. -/
  propsOptional : Option Bool
  /-- Whether operations take their arguments sorted by place after all. -/
  fullRequest : Bool
  /-- Whether operations answer status and headers after all. -/
  fullResponse : Bool
  /-- Whether the code is TypeScript after all. -/
  typescript : Bool
  /-- Whether unions are written as what the members have in common after all. -/
  widenUnions : Bool

/-- A command. -/
inductive Command where
  /-- Shows what a schema defines, as JSON or in short. -/
  | inspect (source : Source) (json : Bool)
  /-- Writes the files of a client into a directory. -/
  | generate (source : Source) (config : Option String) (changes : Changes) (output : String)

/-- What a command line asks for. -/
structure Invocation where
  /-- The command. -/
  command : Command
  /-- Whether to say more. -/
  verbose : Bool

/-- The options that are known everywhere. -/
def generalSwitches : List Switch := [.flag "verbose" (some 'v'), .flag "help" (some 'h')]

/-- The options before the command. -/
def leadingSwitches : List Switch := .flag "version" (some 'V') :: generalSwitches

/-- The options that say where a schema comes from. -/
def sourceSwitches : List Switch :=
  [.path "schema" (some 's'), .text "url" (some 'u'),
    ⟨"header", none, some fun value => (readHeader value).isSome, true⟩,
    .choice "kind" (some 'k') SchemaKind.options]

/-- The options of the command that shows a schema. -/
def inspectSwitches : List Switch := .flag "json" :: sourceSwitches ++ generalSwitches

/-- The options of the command that writes a client. -/
def generateSwitches : List Switch :=
  [.path "config" (some 'c'), .text "name" (some 'n'),
    .choice "flavor" (some 'f') Emit.Flavor.options, .flag "full-request", .flag "full-response",
    .choice "module" (some 'm') Emit.ModuleFormat.options, .flag "typescript",
    ⟨"props-optional", none, some fun value => (readFlag value).isSome, false⟩,
    .flag "widen-unions", .path "output" (some 'o')] ++ sourceSwitches ++ generalSwitches

/-- Where the given options say that a schema comes from.  It cannot come from a file and from an
address. -/
def readSource (g : Given) : Except Stop Source :=
  if g.has "schema" && g.has "url" then .error .usage
  else
    .ok ⟨g.value? "schema", g.value? "url", (g.values "header").filterMap readHeader,
      g.choice? "kind" SchemaKind.options⟩

/-- What the given options say is emitted. -/
def readChanges (g : Given) : Changes where
  name := g.value? "name"
  flavor := g.choice? "flavor" Emit.Flavor.options
  moduleFormat := g.choice? "module" Emit.ModuleFormat.options
  propsOptional := (g.value? "props-optional").bind readFlag
  fullRequest := g.has "full-request"
  fullResponse := g.has "full-response"
  typescript := g.has "typescript"
  widenUnions := g.has "widen-unions"

/-- Reads all options of a command; there must be no other words. -/
def readAllOptions (switches : List Switch) (words : List String) : Except Stop Given := do
  let (g, rest) ← readOptions switches [] words
  if rest.isEmpty then return g else throw .usage

/-- Reads a command line. -/
def Invocation.read (words : List String) : Except Stop Invocation := do
  let (leading, rest) ← readOptions leadingSwitches [] words
  match rest with
  | "inspect" :: words =>
    let g ← readAllOptions inspectSwitches words
    return ⟨.inspect (← readSource g) (g.has "json"), leading.has "verbose" || g.has "verbose"⟩
  | "generate" :: words =>
    let g ← readAllOptions generateSwitches words
    let command := .generate (← readSource g) (g.value? "config") (readChanges g)
      ((g.value? "output").getD ".")
    return ⟨command, leading.has "verbose" || g.has "verbose"⟩
  | ["help"] | ["help", "inspect"] | ["help", "generate"] | ["help", "help"] => throw .help
  | _ => throw .usage

end TypedClient.CommandLine
