import TypedClient.Json.NumberText
import TypedClient.Json.Quoted
import TypedClient.Text.Split

/-!
# Reading JSON text

* `Json.readAsWritten` reads a text into a value whose objects list their members as written,
  repeated names included; lists and objects may nest as deeply as the limit says;
* `Json.read` is the reader of documents and bodies: at most 127 levels, and the last of several
  members of one name wins;
* `Json.outline` reads the members of an object up to the first malformed place, for a reader that
  wants to report a member before it looks at the rest of the text.

The readers recurse on a bound on the number of steps that the length of the text gives.  Every step
into a list or object, and every further item, uses up characters of its own, so the bound is never
what ends a reading.
-/

set_option autoImplicit false

namespace TypedClient.Json

open TypedClient.Text (afterStart?)

/-- The characters JSON allows between its tokens. -/
def isSpace (c : Char) : Bool := c == ' ' || c == '\n' || c == '\t' || c == '\r'

/-- A text without the blanks at its start. -/
def skipSpace (text : List Char) : List Char := text.dropWhile isSpace

/-- Reads a member name and the colon after it, from the place where the name has to start. -/
def readName (text : List Char) : Option (String × List Char) :=
  match text with
  | '"' :: rest =>
    match unquoteChars rest with
    | none => none
    | some (name, rest) =>
      match skipSpace rest with
      | ':' :: rest => some (String.ofList name, rest)
      | _ => none
  | _ => none

mutual

/-- Reads the value at the start of a text, blanks before it allowed. -/
def readValue (levels : Nat) : (steps : Nat) → List Char → Option (Json × List Char)
  | 0, _ => none
  | steps + 1, text =>
    match skipSpace text with
    | [] => none
    | c :: rest =>
      if c = '"' then (unquoteChars rest).map fun (body, after) => (.string (.ofList body), after)
      else if c = '[' then
        match levels with
        | 0 => none
        | levels + 1 =>
          match skipSpace rest with
          | ']' :: after => some (.array [], after)
          | rest => (readItems levels steps rest).map fun (items, after) => (.array items, after)
      else if c = '\x7b' then
        match levels with
        | 0 => none
        | levels + 1 =>
          match skipSpace rest with
          | '\x7d' :: after => some (.object [], after)
          | rest =>
            (readMembers levels steps rest).map fun (members, after) => (.object members, after)
      else if c = 'n' then (afterStart? ['u', 'l', 'l'] rest).map fun after => (.null, after)
      else if c = 't' then (afterStart? ['r', 'u', 'e'] rest).map fun after => (.bool true, after)
      else if c = 'f' then
        (afterStart? ['a', 'l', 's', 'e'] rest).map fun after => (.bool false, after)
      else (readNumber (c :: rest)).map fun (n, after) => (.number n, after)

/-- Reads the items of a list that is not empty, through its closing bracket. -/
def readItems (levels : Nat) : (steps : Nat) → List Char → Option (List Json × List Char)
  | 0, _ => none
  | steps + 1, text =>
    match readValue levels steps text with
    | none => none
    | some (item, rest) =>
      match skipSpace rest with
      | ']' :: after => some ([item], after)
      | ',' :: rest =>
        (readItems levels steps rest).map fun (items, after) => (item :: items, after)
      | _ => none

/-- Reads the members of an object that is not empty, through its closing brace. -/
def readMembers (levels : Nat) :
    (steps : Nat) → List Char → Option (List (String × Json) × List Char)
  | 0, _ => none
  | steps + 1, text =>
    match readName (skipSpace text) with
    | none => none
    | some (name, rest) =>
      match readValue levels steps rest with
      | none => none
      | some (value, rest) =>
        match skipSpace rest with
        | '\x7d' :: after => some ([(name, value)], after)
        | ',' :: rest =>
          (readMembers levels steps rest).map fun (members, after) =>
            ((name, value) :: members, after)
        | _ => none

end

/-- A bound on the steps that reading a text can take. -/
def stepBound (text : List Char) : Nat := 2 * text.length + 2

/-- Reads a text that is one value, with members as written. -/
def readAsWritten (levels : Nat) (text : String) : Option Json :=
  match readValue levels (stepBound text.toList) text.toList with
  | some (value, rest) => if (skipSpace rest).isEmpty then some value else none
  | none => none

/-- How deeply lists and objects of a document may nest. -/
def nestingLimit : Nat := 127

/-- Reads a text that is one value, each name of an object once. -/
def read (text : String) : Option Json := (readAsWritten nestingLimit text).map canonical

/-! ## The members of an object, one by one -/

/-- The members of an object text up to the first malformed place. -/
structure Outline where
  /-- The names in the order of the text, with their values; a malformed value is missing, and no
  name follows it. -/
  members : List (String × Option Json)
  /-- Whether the text is an object from start to end. -/
  complete : Bool

/-- The members of an object from the place where the next name has to start. -/
def outlineMembers : (steps : Nat) → List Char → Outline
  | 0, _ => ⟨[], false⟩
  | steps + 1, text =>
    match skipSpace text with
    | '"' :: rest =>
      match unquoteChars rest with
      | none => ⟨[], false⟩
      | some (name, rest) =>
        let name := String.ofList name
        match skipSpace rest with
        | ':' :: rest =>
          match readValue (nestingLimit - 1) (stepBound rest) rest with
          | none => ⟨[(name, none)], false⟩
          | some (value, rest) =>
            match skipSpace rest with
            | '\x7d' :: after => ⟨[(name, some value)], (skipSpace after).isEmpty⟩
            | ',' :: rest =>
              let later := outlineMembers steps rest
              { later with members := (name, some value) :: later.members }
            | _ => ⟨[(name, some value)], false⟩
        | _ => ⟨[(name, none)], false⟩
    | _ => ⟨[], false⟩

/-- The members of a text that starts an object; nothing for any other text. -/
def outline (text : String) : Option Outline :=
  match skipSpace text.toList with
  | '\x7b' :: rest =>
    match skipSpace rest with
    | '\x7d' :: after => some ⟨[], (skipSpace after).isEmpty⟩
    | rest => some (outlineMembers (rest.length + 1) rest)
  | _ => none

end TypedClient.Json
