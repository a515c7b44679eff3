import TypedClient.Client.Headers
import TypedClient.Json.Quoted

/-!
# Errors of clients

* `ClientError` is why a client was not made or a call failed, and `ClientError.message` words it;
* `ClientError.code`, `ClientError.statusCode` and `ClientError.context` describe it to a program;
* `ClientError.isCallersFault` says whether it was raised before any request was sent.
-/

set_option autoImplicit false

namespace TypedClient.Client

open TypedClient.Text

/-- Why a client was not made or a call failed. -/
inductive ClientError where
  /-- The options name no URL. -/
  | urlRequired
  /-- An option or an argument has a wrong value. -/
  | wrongOption (option message : String)
  /-- A required argument is missing. -/
  | missingParameter (operation parameter : String)
  /-- A form in several parts is missing. -/
  | formRequired (operation : String)
  /-- No response is declared for the status. -/
  | undeclaredStatus (operation : String) (status : Nat)
  /-- The response has none of the declared media types. -/
  | wrongContentType (operation : String) (status : Nat) (found : String) (expected : List String)
  /-- The body of the response does not belong to the declared type. -/
  | malformedBody (operation : String) (status : Nat) (message : String) (body : Json)
  /-- Anything else. -/
  | failed (message : String) (status : Option Nat) (body : Option Json) (cause : Option String)

namespace ClientError

/-- A failure without further information. -/
def plain (message : String) : ClientError := failed message none none none

/-- A failure with a cause. -/
def caused (message cause : String) : ClientError := failed message none none (some cause)

/-- The name of a kind of error. -/
def code : ClientError → String
  | urlRequired => "OPTIONS_URL_REQUIRED"
  | wrongOption .. => "WRONG_OPTION_TYPE"
  | missingParameter .. => "MISSING_PARAMS_REQUIRED"
  | formRequired .. => "FORM_DATA_REQUIRED"
  | undeclaredStatus .. => "INVALID_RESPONSE_SCHEMA"
  | wrongContentType .. => "INVALID_CONTENT_TYPE"
  | malformedBody .. => "INVALID_RESPONSE_FORMAT"
  | failed .. => "UNEXPECTED_CALL_FAILURE"

/-- The wording of an error. -/
def message : ClientError → String
  | urlRequired => "options.url is required"
  | wrongOption option message => "invalid value for `" ++ option ++ "`: " ++ message
  | missingParameter operation parameter =>
    "missing required parameter `" ++ parameter ++ "` for operation " ++ operation
  | formRequired operation => "operation " ++ operation ++ " expects a multipart form body"
  | undeclaredStatus operation status =>
    "no response schema of operation " ++ operation ++ " matches status " ++ toString status
  | wrongContentType operation status found expected =>
    "unexpected content type `" ++ found ++ "` for status " ++ toString status ++
      " of operation " ++ operation ++ ", expected one of " ++ displayTexts expected
  | malformedBody operation status message _ =>
    "invalid response format for status " ++ toString status ++ " of operation " ++ operation ++
      ": " ++ message
  | failed message _ _ _ => message

/-- The status of the response that the error was raised for. -/
def statusCode : ClientError → Option Nat
  | undeclaredStatus _ status | wrongContentType _ status _ _ | malformedBody _ status _ _ =>
    some status
  | failed _ status _ _ => status
  | _ => none

/-- Whether the error was raised before any request was sent. -/
def isCallersFault : ClientError → Bool
  | urlRequired | wrongOption .. | missingParameter .. | formRequired .. => true
  | _ => false

/-- What else is known of an error. -/
def context : ClientError → Dict Json
  | urlRequired => []
  | wrongOption option _ => [("option", .string option)]
  | missingParameter operation parameter =>
    [("operation", .string operation), ("param", .string parameter)]
  | formRequired operation | undeclaredStatus operation _ => [("operation", .string operation)]
  | wrongContentType operation _ found expected =>
    Dict.ofList [("operation", .string operation), ("contentType", .string found),
      ("expectedContentTypes", .ofTexts expected)]
  | malformedBody operation _ _ body =>
    Dict.ofList [("operation", .string operation), ("actualData", body)]
  | failed _ _ body cause =>
    Dict.ofList (Json.given "body" id body ++ Json.given "cause" .string cause)

end ClientError

/-- The outcome of what a client does. -/
abbrev Outcome := Except ClientError

end TypedClient.Client
