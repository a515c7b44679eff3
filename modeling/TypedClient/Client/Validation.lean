import TypedClient.Api.Operation
import TypedClient.Client.Error
import TypedClient.Client.Request
import TypedClient.Json.Reader
import TypedClient.Types.Check

/-!
# Reading responses

* `decodeBody` reads the body of a response whatever it is;
* `validate` reads it and makes sure that the operation declares it.  Checking changes nothing about
  the value: a response that passes reads as `decodeBody` reads it.
-/

set_option autoImplicit false

namespace TypedClient.Client

open TypedClient.Api TypedClient.Text TypedClient.Types

/-- The JSON value that bytes write. -/
def jsonOf? (bytes : Bytes) : Option Json := (decodeUtf8? bytes).bind Json.read

/-- The body as text; what is no UTF-8 shows as replacement characters. -/
def bodyText (r : Response) : Json := .string (decodeUtf8Lossy r.body)

/-- Whether a response says that it is JSON. -/
def saysJson (r : Response) : Bool := (r.contentType?.map isJson).getD false

/-- The body of a response: null if it is empty, the value if it is JSON as it says, and otherwise
the text. -/
def decodeBody (r : Response) : Json :=
  if r.body.isEmpty then .null
  else if saysJson r then (jsonOf? r.body).getD (bodyText r)
  else bodyText r

/-- Reads the body of a response that is JSON, of the given type. -/
def readDeclared (op : Operation) (g : TypeGraph) (type : Option TypeId) (r : Response) :
    Outcome Json :=
  match jsonOf? r.body with
  | none => .error (.malformedBody op.id r.status "body is not valid JSON" (bodyText r))
  | some body =>
    match type with
    | none => .ok body
    | some type =>
      match check g type body with
      | .ok () => .ok body
      | .error mismatch => .error (.malformedBody op.id r.status (mismatch.message g) body)

/-- Reads the body of a response that the operation declares: there is a response for the status,
and if that has content, one of its media types covers the response. -/
def validate (op : Operation) (g : TypeGraph) (r : Response) : Outcome Json :=
  match op.responseFor? r.status with
  | none => .error (.undeclaredStatus op.id r.status)
  | some declared =>
    if declared.content.isEmpty then .ok (decodeBody r)
    else
      let found := r.contentType?.getD ""
      match declared.content.find? fun media => accepts media.mediaType found with
      | none =>
        .error (.wrongContentType op.id r.status found (declared.content.map Media.mediaType))
      | some media =>
        if isJson found then readDeclared op g media.type r else .ok (decodeBody r)

end TypedClient.Client
