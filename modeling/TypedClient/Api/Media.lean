import TypedClient.Text.Split

/-!
# Media types

* `essence` is a media type without its parameters, in lower case;
* `isJson` recognizes JSON and the types built on it;
* `ContentKind.classify` says how a request body of a media type is written;
* `accepts` says whether a declared media type, wildcards included, covers the type of a response.
-/

set_option autoImplicit false

namespace TypedClient.Api

open TypedClient.Text

/-- What precedes the parameters of a media type, in lower case. -/
def essence (mediaType : String) : String :=
  lowerAscii (String.ofList (trim (mediaType.toList.takeWhile (· != ';'))))

/-- Whether the media type is JSON or has JSON as its structure. -/
def isJson (mediaType : String) : Bool :=
  essence mediaType == "application/json" || "+json".toList.isSuffixOf (essence mediaType).toList

/-- How a request body is written. -/
inductive ContentKind where
  /-- As JSON text. -/
  | json
  /-- As a form in several parts. -/
  | multipart
  /-- As a form in one line. -/
  | formUrlEncoded
  /-- In a way this library leaves to the caller. -/
  | other
  deriving DecidableEq, Repr

/-- The media type of forms in several parts. -/
def multipartForm : String := "multipart/form-data"

/-- The media type of forms in one line. -/
def urlEncodedForm : String := "application/x-www-form-urlencoded"

/-- The media type of JSON. -/
def jsonMedia : String := "application/json"

/-- The kind of body a media type asks for.  A form in several parts is recognized only without
parameters. -/
def ContentKind.classify (mediaType : String) : ContentKind :=
  if isJson mediaType then .json
  else if sameIgnoringCase mediaType multipartForm then .multipart
  else if essence mediaType == urlEncodedForm then .formUrlEncoded
  else .other

/-- Whether the declared media type covers a content type: it is a wildcard for everything or for
the major type, or the essence of the content type.  Parameters of the declared type count. -/
def accepts (declared contentType : String) : Bool :=
  let declared := lowerAscii declared
  let actual := essence contentType
  declared == "*/*" || declared == actual ||
    match beforeEnd? ['/', '*'] declared.toList with
    | some major => ((cutAt? '/' actual.toList).map Prod.fst) == some major
    | none => false

end TypedClient.Api
