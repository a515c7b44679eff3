import TypedClient.Json.Printer
import TypedClient.Url.Percent

/-!
# Queries and forms

Arguments are written as pairs of key and text, in the way forms are.

* `leaves` takes an argument apart: a list repeats its key, the members of an object have their
  names in brackets behind it, and null is left out;
* `formText` writes pairs, and `queryText` writes arguments.
-/

set_option autoImplicit false

namespace TypedClient.Client

open TypedClient.Text

/-- A scalar as text: a string as it is, everything else as JSON. -/
def scalarText : Json → String
  | .string s => s
  | value => value.compact

mutual

/-- The pairs that an argument is written as. -/
def leaves (key : String) : Json → List (String × String)
  | .null => []
  | .array items => leavesOfItems key items
  | .object members => leavesOfMembers key members
  | value => [(key, scalarText value)]

/-- The pairs of the items of a list. -/
def leavesOfItems (key : String) : List Json → List (String × String)
  | [] => []
  | item :: rest => leaves key item ++ leavesOfItems key rest

/-- The pairs of the members of an object. -/
def leavesOfMembers (key : String) : List (String × Json) → List (String × String)
  | [] => []
  | (name, value) :: rest => leaves (key ++ "[" ++ name ++ "]") value ++ leavesOfMembers key rest

end

/-- Whether a byte stands for itself in a form. -/
def isPlainByte (b : UInt8) : Bool :=
  let c := Char.ofNat b.toNat
  b < 0x80 && (c.isAlphanum || "*-._".toList.contains c)

/-- A byte in a form. -/
def formByte (b : UInt8) : List Char :=
  if isPlainByte b then [Char.ofNat b.toNat]
  else if b = 0x20 then ['+']
  else Url.encodeByte b

/-- A text in a form. -/
def formEncode (s : String) : String := String.ofList ((encodeUtf8 s).flatMap formByte)

/-- A pair in a form. -/
def formPair (pair : String × String) : String := formEncode pair.1 ++ "=" ++ formEncode pair.2

/-- The text of a form. -/
def formText (pairs : List (String × String)) : String := "&".intercalate (pairs.map formPair)

/-- The query for arguments, in their order. -/
def queryText (arguments : List (String × Json)) : String :=
  formText (arguments.flatMap fun (key, value) => leaves key value)

end TypedClient.Client
