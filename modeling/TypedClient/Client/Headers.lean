import TypedClient.Json.Basic
import TypedClient.Json.Decode
import TypedClient.Text.Split

/-!
# Headers

Names of headers are the same in either case, so they are kept in lower case.

* `Headers.insert`, `Headers.remove` and `Headers.overlay` change a set of headers;
* `Headers.get?` looks a header up.
-/

set_option autoImplicit false

namespace TypedClient.Client

open TypedClient.Text

/-- A set of headers. -/
structure Headers where
  /-- The values by names in lower case. -/
  entries : Dict String
  deriving DecidableEq

namespace Headers

/-- No headers. -/
def empty : Headers := ⟨[]⟩

instance : Inhabited Headers := ⟨empty⟩

/-- The headers with one set. -/
def insert (h : Headers) (name value : String) : Headers :=
  ⟨Dict.insert h.entries (lowerAscii name) value⟩

/-- The headers without one. -/
def remove (h : Headers) (name : String) : Headers := ⟨Dict.erase h.entries (lowerAscii name)⟩

/-- The value of a header. -/
def get? (h : Headers) (name : String) : Option String := Dict.get? h.entries (lowerAscii name)

/-- Whether a header is set. -/
def contains (h : Headers) (name : String) : Bool := (h.get? name).isSome

/-- The headers with others laid over them. -/
def overlay (h top : Headers) : Headers := ⟨Dict.overlay h.entries top.entries⟩

/-- The number of headers. -/
def size (h : Headers) : Nat := h.entries.length

/-- The headers of a list, of which the last of a name counts. -/
def ofList (entries : List (String × String)) : Headers :=
  entries.foldl (fun h (name, value) => h.insert name value) empty

/-- Headers as a value. -/
def encode (h : Headers) : Json := Json.ofDict .string h.entries

/-- Reads headers from an object of texts. -/
def decode (value : Json) : Decoded Headers := (Json.dict Json.text value).map ofList

end Headers

end TypedClient.Client
