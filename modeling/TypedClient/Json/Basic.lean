import TypedClient.Dict
import TypedClient.Number.Double

/-!
# JSON values

The values that documents, arguments and responses are made of.  Numbers keep the distinction
between an integer and a double, because it shows: `1` and `1.0` are written differently and are
different enumeration values.

* `Json.Number` is an integer or a double;
* `Json.object` carries its members as a dictionary; `Json.ofMembers` builds it from members in any
  order, and `Json.canonical` does so throughout a value read as written;
* `Json.agrees` is equality of values, with the two zeros of doubles equal;
* `Json.ofList`, `Json.ofDict`, `Json.ofOption` and `Json.given` write records as objects.
-/

set_option autoImplicit false

namespace TypedClient

open Number (Double)

/-- A number: an integer, or a double where the text had a point, an exponent or too many
digits. -/
inductive Json.Number where
  /-- An integer between `-2 ^ 63` and `2 ^ 64 - 1`. -/
  | integer (value : Int)
  /-- A finite double. -/
  | double (value : Double)
  deriving DecidableEq

/-- Numeric equality within a kind; an integer never agrees with a double. -/
def Json.Number.agrees : Json.Number → Json.Number → Bool
  | .integer a, .integer b => a == b
  | .double a, .double b => a.agrees b
  | _, _ => false

/-- A JSON value. -/
inductive Json where
  /-- The null value. -/
  | null
  /-- A truth value. -/
  | bool (value : Bool)
  /-- A number. -/
  | number (value : Json.Number)
  /-- A text. -/
  | string (value : String)
  /-- A list of values. -/
  | array (items : List Json)
  /-- Named values; in a canonical value they form a dictionary. -/
  | object (members : List (String × Json))

namespace Json

instance : Inhabited Json := ⟨.null⟩

/-- An integer as a value. -/
def ofInt (n : Int) : Json := .number (.integer n)

/-- A natural number as a value. -/
def ofNat (n : Nat) : Json := .number (.integer n)

/-- The object with the given members; the last member of a name wins. -/
def ofMembers (members : List (String × Json)) : Json := .object (Dict.ofList members)

/-- The member of an object; other values have none. -/
def get? : Json → String → Option Json
  | .object members, key => Dict.get? members key
  | _, _ => none

/-- Whether the value is null. -/
def isNull : Json → Bool
  | .null => true
  | _ => false

/-- The name of the kind of a value, as messages use it. -/
def kindName : Json → String
  | .null => "null"
  | .bool _ => "boolean"
  | .number _ => "number"
  | .string _ => "string"
  | .array _ => "array"
  | .object _ => "object"

mutual

/-- Equality of values. -/
def agrees : Json → Json → Bool
  | .null, .null => true
  | .bool a, .bool b => a == b
  | .number a, .number b => a.agrees b
  | .string a, .string b => a == b
  | .array a, .array b => agreesItems a b
  | .object a, .object b => agreesMembers a b
  | _, _ => false

/-- Equality of lists of values. -/
def agreesItems : List Json → List Json → Bool
  | [], [] => true
  | a :: as, b :: bs => agrees a b && agreesItems as bs
  | _, _ => false

/-- Equality of members, name by name. -/
def agreesMembers : List (String × Json) → List (String × Json) → Bool
  | [], [] => true
  | (k, a) :: as, (l, b) :: bs => k == l && agrees a b && agreesMembers as bs
  | _, _ => false

end

mutual

/-- The value with the members of every object put in order, the last of a name winning. -/
def canonical : Json → Json
  | .array items => .array (canonicalItems items)
  | .object members => .ofMembers (canonicalMembers members)
  | value => value

/-- `canonical` on every item. -/
def canonicalItems : List Json → List Json
  | [] => []
  | item :: rest => canonical item :: canonicalItems rest

/-- `canonical` on every member. -/
def canonicalMembers : List (String × Json) → List (String × Json)
  | [] => []
  | (key, value) :: rest => (key, canonical value) :: canonicalMembers rest

end

/-! ## Encoding

Records are written as objects; a field without a value is either left out or written as null. -/

variable {α : Type}

/-- A list, item by item. -/
def ofList (encode : α → Json) (items : List α) : Json := .array (items.map encode)

/-- A list of texts. -/
def ofTexts (texts : List String) : Json := ofList .string texts

/-- A dictionary, member by member. -/
def ofDict (encode : α → Json) (entries : Dict α) : Json :=
  .object (entries.map fun (key, value) => (key, encode value))

/-- A value that may be missing, as null if it is. -/
def ofOption (encode : α → Json) : Option α → Json
  | some value => encode value
  | none => .null

/-- The member for a field that is left out when it has no value. -/
def given (name : String) (encode : α → Json) : Option α → List (String × Json)
  | some value => [(name, encode value)]
  | none => []

end Json

end TypedClient
