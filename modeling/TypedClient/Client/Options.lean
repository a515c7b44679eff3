import TypedClient.Client.Error
import TypedClient.Json.Reader

/-!
# Client options

What a host passes when it makes a client, as an object with members of known names.

* `ClientOptions.decode` reads options from a value and `ClientOptions.encode` writes them;
* `ClientOptions.ofJson` and `ClientOptions.ofText` read options given to a client.  They word the
  first error: members are looked at in the order of their names in a value, and in the order of the
  text in a text.
-/

set_option autoImplicit false

namespace TypedClient.Client

open TypedClient.Text

/-- A number of attempts, which is one of 32 bits, stands for itself among all numbers. -/
instance coeAttempts : Coe UInt32 Nat := ⟨UInt32.toNat⟩

/-- What a host passes when it makes a client.  Times are in milliseconds. -/
structure ClientOptions where
  /-- The base URL of all operations. -/
  url : Option String := none
  /-- The file of the schema. -/
  path : Option String := none
  /-- The address of the schema, used if there is no file. -/
  schemaUrl : Option String := none
  /-- Headers of every request. -/
  headers : Headers := .empty
  /-- Whether calls answer status and headers beside the body. -/
  fullResponse : Bool := false
  /-- Whether calls take their arguments sorted by place. -/
  fullRequest : Bool := false
  /-- Whether a status of 400 or above is an error. -/
  throwOnError : Option Bool := none
  /-- Whether responses are checked against the schema. -/
  validateResponse : Option Bool := none
  /-- How long to wait for the body of a response. -/
  bodyTimeout : Option Nat := none
  /-- How long to wait for the headers of a response. -/
  headersTimeout : Option Nat := none
  /-- How long to wait before a further attempt; there are none without it. -/
  retryTimeoutMs : Option Nat := none
  /-- How many further attempts there are. -/
  maxRetries : Option UInt32 := none
  /-- The path that GraphQL requests are sent to. -/
  graphqlPath : Option String := none

namespace ClientOptions

/-- The names of the options. -/
def fieldNames : List String :=
  ["url", "path", "schemaUrl", "headers", "fullResponse", "fullRequest", "throwOnError",
    "validateResponse", "bodyTimeout", "headersTimeout", "retryTimeoutMs", "maxRetries",
    "graphqlPath"]

/-- The options with one set to a value. -/
def set (o : ClientOptions) (name : String) (value : Json) : Decoded ClientOptions :=
  let text := Json.nullable Json.text value
  let flag := Json.nullable Json.flag value
  let number (bits : Nat) := Json.nullable (Json.natural bits) value
  match name with
  | "url" => return { o with url := ← text }
  | "path" => return { o with path := ← text }
  | "schemaUrl" => return { o with schemaUrl := ← text }
  | "headers" => return { o with headers := ← Headers.decode value }
  | "fullResponse" => return { o with fullResponse := ← Json.flag value }
  | "fullRequest" => return { o with fullRequest := ← Json.flag value }
  | "throwOnError" => return { o with throwOnError := ← flag }
  | "validateResponse" => return { o with validateResponse := ← flag }
  | "bodyTimeout" => return { o with bodyTimeout := ← number 64 }
  | "headersTimeout" => return { o with headersTimeout := ← number 64 }
  | "retryTimeoutMs" => return { o with retryTimeoutMs := ← number 64 }
  | "maxRetries" => return { o with maxRetries := (← number 32).map UInt32.ofNat }
  | "graphqlPath" => return { o with graphqlPath := ← text }
  | name => throw (.unknownField name fieldNames)

/-- The options with some set, in order. -/
def setAll (o : ClientOptions) (members : List (String × Json)) : Decoded ClientOptions :=
  members.foldlM (fun o (name, value) => o.set name value) o

/-- Reads options. -/
def decode : Json → Decoded ClientOptions
  | .object members => setAll { } members
  | .array values => do
    let options ← setAll { } (fieldNames.zip values)
    if fieldNames.length < values.length then throw (.tooLong values.length)
    return options
  | value => .error (.wrongType value "struct ClientOptions")

/-- Options as a value. -/
def encode (o : ClientOptions) : Json :=
  .ofMembers (Json.given "url" .string o.url ++ Json.given "path" .string o.path ++
    Json.given "schemaUrl" .string o.schemaUrl ++
    [("headers", o.headers.encode), ("fullResponse", .bool o.fullResponse),
      ("fullRequest", .bool o.fullRequest)] ++
    Json.given "throwOnError" .bool o.throwOnError ++
    Json.given "validateResponse" .bool o.validateResponse ++
    Json.given "bodyTimeout" .ofNat o.bodyTimeout ++
    Json.given "headersTimeout" .ofNat o.headersTimeout ++
    Json.given "retryTimeoutMs" .ofNat o.retryTimeoutMs ++
    Json.given "maxRetries" (fun n => .ofNat n) o.maxRetries ++
    Json.given "graphqlPath" .string o.graphqlPath)

/-! ## Options given to a client -/

/-- An error in options as an error of a client.  It names the unknown option, up to the first
backtick in its name, or else the options as a whole. -/
def errorOf (e : DecodeError) : ClientError :=
  let option :=
    match e with
    | .unknownField name _ => String.ofList (name.toList.takeWhile (· != '\x60'))
    | _ => "options"
  .wrongOption option e.message

/-- Reads options from a value. -/
def ofJson (value : Json) : Outcome ClientOptions := (decode value).mapError errorOf

/-- The error of a text that is not well formed. -/
def malformed : ClientError := .wrongOption "options" "malformed text"

/-- Sets the members of a text, of which those in `seen` have been set before. -/
def setWritten (o : ClientOptions) (seen : List String) :
    List (String × Option Json) → Outcome ClientOptions
  | [] => .ok o
  | (name, value) :: rest =>
    if !fieldNames.contains name then .error (errorOf (.unknownField name fieldNames))
    else if seen.contains name then .error (errorOf (.duplicateField name))
    else
      match value with
      | none => .error malformed
      | some value => do
        let o ← (o.set name value).mapError errorOf
        setWritten o (name :: seen) rest

/-- Reads options from a text. -/
def ofText (text : String) : Outcome ClientOptions :=
  match Json.outline text with
  | some outline => do
    let options ← setWritten { } [] outline.members
    if outline.complete then .ok options else .error malformed
  | none =>
    match Json.read text with
    | some value => ofJson value
    | none => .error malformed

end ClientOptions

end TypedClient.Client
