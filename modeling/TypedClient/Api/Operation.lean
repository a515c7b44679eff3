import TypedClient.Api.Media
import TypedClient.Text.Split
import TypedClient.Types.Graph

/-!
# Operations

An operation is one request that a client can make: where its arguments go, what its body is, and
which responses it can get.  The types of all of these are nodes of one type graph.

* `Method.all` lists the methods in the order in which the operations of one path are taken up;
* `StatusKey` is what a response is declared for: a status code, a hundred of codes, or everything
  else;
* `Operation.parametersIn` and `Operation.body?` find parameters by their place;
* `Operation.responseFor?` finds the response declared for a status.
-/

set_option autoImplicit false

namespace TypedClient.Api

open TypedClient.Text
open TypedClient.Types (TypeId)

/-! ## Methods -/

/-- An HTTP method. -/
inductive Method where
  /-- GET -/
  | get
  /-- POST -/
  | post
  /-- PUT -/
  | put
  /-- PATCH -/
  | patch
  /-- DELETE -/
  | delete
  /-- HEAD -/
  | head
  /-- OPTIONS -/
  | options
  deriving DecidableEq, Repr

namespace Method

/-- Every method, in the order operations are taken up. -/
def all : List Method := [.get, .post, .put, .patch, .delete, .head, .options]

/-- The name of the method in a request line. -/
def text : Method → String
  | .get => "GET"
  | .post => "POST"
  | .put => "PUT"
  | .patch => "PATCH"
  | .delete => "DELETE"
  | .head => "HEAD"
  | .options => "OPTIONS"

/-- The method of a name in upper case. -/
def ofText? (name : String) : Option Method := all.find? fun m => m.text == name

end Method

/-! ## Response keys -/

/-- What a response is declared for. -/
inductive StatusKey where
  /-- One status code. -/
  | code (status : Nat)
  /-- The hundred codes with the given first digit. -/
  | range (digit : Nat)
  /-- Every code without a response of its own. -/
  | default
  deriving DecidableEq, Repr

namespace StatusKey

/-- Reads a key: `default`, a digit from 1 to 5 before `XX`, or a number of 16 bits.  Letters may
be of either case. -/
def ofText? (key : String) : Option StatusKey :=
  if sameIgnoringCase key "default" then some default
  else
    match key.toList with
    | [digit, a, b] =>
      if a.toLower = 'x' ∧ b.toLower = 'x' ∧ digit.toNat < 128 then
        ((readDigits? [digit]).filter fun d => 1 ≤ d ∧ d ≤ 5).map range
      else (readUnsigned? 65536 [digit, a, b]).map code
    | cs => (readUnsigned? 65536 cs).map code

/-- The key as part of a name. -/
def label : StatusKey → String
  | code status => toString status
  | range digit => toString digit ++ "XX"
  | default => "Default"

end StatusKey

/-! ## Operations -/

/-- The place of an argument in a request. -/
inductive Location where
  /-- A placeholder of the path. -/
  | path
  /-- A pair of the query. -/
  | query
  /-- A header. -/
  | header
  /-- The body. -/
  | body
  deriving DecidableEq, Repr

/-- An argument of an operation. -/
structure Parameter where
  /-- The name of the argument. -/
  name : String
  /-- Where it goes. -/
  location : Location
  /-- Whether a call has to give it. -/
  required : Bool
  /-- The type of its values. -/
  type : TypeId
  /-- What the schema says about it. -/
  description : Option String
  deriving DecidableEq

/-- What a request body consists of. -/
structure BodyContent where
  /-- How the body is written. -/
  kind : ContentKind
  /-- The media type as declared. -/
  mediaType : String
  deriving DecidableEq

/-- One kind of content of a response. -/
structure Media where
  /-- The media type as declared. -/
  mediaType : String
  /-- The type of the content, if declared. -/
  type : Option TypeId
  deriving DecidableEq

/-- A response of an operation. -/
structure Response where
  /-- What the response is declared for. -/
  status : StatusKey
  /-- What the schema says about it. -/
  description : Option String
  /-- The kinds of content it may have. -/
  content : List Media
  deriving DecidableEq

/-- A request that a client can make. -/
structure Operation where
  /-- The unique name of the operation. -/
  id : String
  /-- The identifier that the schema declares. -/
  declaredId : Option String
  /-- The method. -/
  method : Method
  /-- The path, with placeholders in braces. -/
  path : String
  /-- What the schema says about it. -/
  summary : Option String
  /-- The arguments, in order. -/
  parameters : List Parameter
  /-- What the body consists of, if there is one. -/
  content : Option BodyContent
  /-- The responses, in order. -/
  responses : List Response
  deriving DecidableEq

namespace Operation

/-- The parameters in the given place, in order. -/
def parametersIn (op : Operation) (location : Location) : List Parameter :=
  op.parameters.filter (·.location = location)

/-- The parameter that is the body. -/
def body? (op : Operation) : Option Parameter := op.parameters.find? (·.location = .body)

/-- Whether the body is a form in several parts. -/
def isMultipart (op : Operation) : Bool :=
  match op.content with
  | some content => content.kind = .multipart
  | none => false

/-- The first response declared for the given key. -/
def responseAt? (op : Operation) (key : StatusKey) : Option Response :=
  op.responses.find? (·.status = key)

/-- The response for a status: the one for that code, else the one for its hundred, else the one
for everything else.  The number of the hundred is taken in eight bits. -/
def responseFor? (op : Operation) (status : Nat) : Option Response :=
  op.responseAt? (.code status) <|> op.responseAt? (.range (status / 100 % 256)) <|>
    op.responseAt? .default

end Operation

end TypedClient.Api
