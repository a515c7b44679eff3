import TypedClient.Api.Operation
import TypedClient.Client.Headers
import TypedClient.Text.Utf8
import TypedClient.Url.Basic

/-!
# Requests and responses

What a client sends and what it gets back.

* `Request` and `Response` are the two sides of an exchange;
* `Failure` is why an exchange has no response, and `Failure.message` words it.
-/

set_option autoImplicit false

namespace TypedClient.Client

open TypedClient.Text

/-- The contents of a field of a form in several parts. -/
inductive FieldContent where
  /-- A text. -/
  | text (value : String)
  /-- A file. -/
  | file (name : String) (contentType : Option String) (bytes : Bytes)
  deriving DecidableEq

/-- A field of a form in several parts. -/
structure FormField where
  /-- The name. -/
  name : String
  /-- The contents. -/
  content : FieldContent
  deriving DecidableEq

/-- A form in several parts. -/
abbrev Form := List FormField

/-- The body of a request. -/
inductive Body where
  /-- No body. -/
  | empty
  /-- A value. -/
  | json (value : Json)
  /-- A form in several parts. -/
  | form (fields : Form)
  /-- A form in one line. -/
  | urlEncoded (text : String)
  /-- Bytes of a declared media type. -/
  | raw (contentType : String) (bytes : Bytes)

/-- Whether there is no body. -/
def Body.isEmpty : Body → Bool
  | .empty => true
  | _ => false

/-- A request.  Times are in milliseconds. -/
structure Request where
  /-- The method. -/
  method : Api.Method
  /-- The address. -/
  url : Url
  /-- The headers. -/
  headers : Headers
  /-- The body. -/
  body : Body
  /-- How long to wait for the headers of the response. -/
  headersTimeout : Nat
  /-- How long to wait for the body of the response. -/
  bodyTimeout : Nat

/-- A response. -/
structure Response where
  /-- The status code. -/
  status : Nat
  /-- The headers. -/
  headers : Headers
  /-- The bytes of the body. -/
  body : Bytes
  deriving DecidableEq

/-- The media type of a response. -/
def Response.contentType? (r : Response) : Option String := r.headers.get? "content-type"

/-- Why an exchange has no response.  Times are in milliseconds. -/
inductive Failure where
  /-- The headers did not arrive in time. -/
  | headersTimeout (limit : Nat)
  /-- The body did not arrive in time. -/
  | bodyTimeout (limit : Nat)
  /-- Anything else. -/
  | other (text : String)
  deriving DecidableEq

/-- A time in the greatest unit that it has at least one of, with as many decimals as it takes. -/
def durationText (ms : Nat) : String :=
  if ms = 0 then "0ns"
  else if ms < 1000 then toString ms ++ "ms"
  else
    let padded := (toString (1000 + ms % 1000)).toList.drop 1
    match (padded.reverse.dropWhile (· == '0')).reverse with
    | [] => toString (ms / 1000) ++ "s"
    | decimals => toString (ms / 1000) ++ "." ++ String.ofList decimals ++ "s"

/-- The wording of a failure. -/
def Failure.message : Failure → String
  | .headersTimeout limit => "no response headers within " ++ durationText limit
  | .bodyTimeout limit => "response body not received within " ++ durationText limit
  | .other text => text

/-- The outcome of an exchange. -/
abbrev Exchanged := Except Failure Response

end TypedClient.Client
