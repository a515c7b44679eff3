import TypedClient.Json.Printer
import TypedClient.Json.Quoted

/-!
# Decoding values

A decoder turns a value into a domain type or says what is wrong with it.

* `DecodeError` lists what can be wrong, and `DecodeError.message` words it;
* `Json.text`, `Json.flag`, `Json.natural` and so on decode scalars;
* `Json.fields` opens a value as a record.  A record may be written as an object, or as the list of
  its fields in their order, where fields at the end may be missing;
* `Record.required`, `Record.defaulted` and `Record.optional` take fields out of a record.  Only an
  optional field may be null.

The parts of a value come with the proof that they are smaller than the value, so that a decoder of
a recursive type can recurse on them.
-/

set_option autoImplicit false

namespace TypedClient

open Json TypedClient.Text

/-- What can be wrong with a value. -/
inductive DecodeError where
  /-- The value is of another kind than expected. -/
  | wrongType (found : Json) (expected : String)
  /-- The value is of the right kind but out of range. -/
  | wrongValue (found : Json) (expected : String)
  /-- A record has a member that is none of its fields. -/
  | unknownField (name : String) (expected : List String)
  /-- A text is none of the names of a choice. -/
  | unknownVariant (name : String) (expected : List String)
  /-- A record lacks a field. -/
  | missingField (name : String)
  /-- A record has a field twice. -/
  | duplicateField (name : String)
  /-- A record written as a list has more items than fields. -/
  | tooLong (length : Nat)
  /-- No alternative fits. -/
  | noVariant (type : String)

/-- A value as messages mention it: its kind, and the value itself where it is short. -/
def mention : Json → String
  | .null => "null"
  | .bool b => "boolean `" ++ (if b then "true" else "false") ++ "`"
  | .number (.integer n) => "integer `" ++ toString n ++ "`"
  | .number (.double d) => "floating point `" ++ (Json.Number.double d).text ++ "`"
  | .string s => "string " ++ displayText s
  | .array _ => "sequence"
  | .object _ => "map"

/-- A list of names as messages give a choice between them. -/
def oneOf (names : List String) : String :=
  match names.map fun name => "`" ++ name ++ "`" with
  | [] => "there are no fields"
  | [a] => "expected " ++ a
  | [a, b] => "expected " ++ a ++ " or " ++ b
  | quoted => "expected one of " ++ String.intercalate ", " quoted

/-- The wording of an error. -/
def DecodeError.message : DecodeError → String
  | .wrongType found expected => "invalid type: " ++ mention found ++ ", expected " ++ expected
  | .wrongValue found expected => "invalid value: " ++ mention found ++ ", expected " ++ expected
  | .unknownField name expected => "unknown field `" ++ name ++ "`, " ++ oneOf expected
  | .unknownVariant name expected => "unknown variant `" ++ name ++ "`, " ++ oneOf expected
  | .missingField name => "missing field `" ++ name ++ "`"
  | .duplicateField name => "duplicate field `" ++ name ++ "`"
  | .tooLong length =>
    "invalid length " ++ toString length ++ ", expected fewer elements in array"
  | .noVariant type => "data did not match any variant of untagged enum " ++ type

/-- The outcome of decoding. -/
abbrev Decoded := Except DecodeError

namespace Json

/-! ## Scalars -/

/-- Decodes a text. -/
def text : Json → Decoded String
  | .string s => .ok s
  | value => .error (.wrongType value "a string")

/-- Decodes a truth value. -/
def flag : Json → Decoded Bool
  | .bool b => .ok b
  | value => .error (.wrongType value "a boolean")

/-- Decodes a natural number below `2 ^ bits`. -/
def natural (bits : Nat) (value : Json) : Decoded Nat :=
  let expected := "u" ++ toString bits
  match value with
  | .number (.integer n) =>
    if 0 ≤ n ∧ n < Number.twoTo bits then .ok n.toNat else .error (.wrongValue value expected)
  | value => .error (.wrongType value expected)

/-- Decodes a value that may be null. -/
def nullable {α : Type} (decode : Json → Decoded α) : Json → Decoded (Option α)
  | .null => .ok none
  | value => (decode value).map some

/-! ## Parts of a value -/

/-- A value smaller than the given one. -/
abbrev Part (whole : Json) := { part : Json // sizeOf part < sizeOf whole }

theorem sizeOf_lt_of_mem_array {item : Json} {items : List Json} (h : item ∈ items) :
    sizeOf item < sizeOf (Json.array items) := by
  have := List.sizeOf_lt_of_mem h
  simp only [Json.array.sizeOf_spec]
  omega

theorem sizeOf_lt_of_mem_object {member : String × Json} {members : List (String × Json)}
    (h : member ∈ members) : sizeOf member.2 < sizeOf (Json.object members) := by
  have := List.sizeOf_lt_of_mem h
  obtain ⟨key, value⟩ := member
  simp only [Json.object.sizeOf_spec, Prod.mk.sizeOf_spec] at *
  omega

/-- The items of a list. -/
def items : (value : Json) → Decoded (List (Part value))
  | .array items => .ok (items.attach.map fun item => ⟨item.1, sizeOf_lt_of_mem_array item.2⟩)
  | value => .error (.wrongType value "a sequence")

/-- The members of an object. -/
def members : (value : Json) → Decoded (List (String × Part value))
  | .object members =>
    .ok (members.attach.map fun member =>
      (member.1.1, ⟨member.1.2, sizeOf_lt_of_mem_object member.2⟩))
  | value => .error (.wrongType value "a map")

/-! ## Choices -/

/-- Takes apart a value that is of one of several kinds: the name of the kind alone, or an object
whose only member has that name and holds the contents. -/
def tagged : (value : Json) → Decoded (String × Option (Part value))
  | .string tag => .ok (tag, none)
  | .object [member] =>
    .ok (member.1, some ⟨member.2, sizeOf_lt_of_mem_object (List.mem_singleton.2 rfl)⟩)
  | .object members => .error (.wrongValue (.object members) "map with a single key")
  | value => .error (.wrongType value "string or map")

/-- Decodes the name of a choice.  The name may also stand as the only member of an object, with a
null value. -/
def choice {α : Type} (options : List (String × α)) (value : Json) : Decoded α := do
  let (name, contents) ← value.tagged
  match options.lookup name, contents with
  | none, _ => .error (.unknownVariant name (options.map Prod.fst))
  | some option, none | some option, some ⟨.null, _⟩ => .ok option
  | some _, some contents => .error (.wrongType contents.1 "unit")

/-- Decodes a list. -/
def list {α : Type} (decode : Json → Decoded α) (value : Json) : Decoded (List α) := do
  (← value.items).mapM fun item => decode item.1

/-- Decodes an object with members of one kind. -/
def dict {α : Type} (decode : Json → Decoded α) (value : Json) : Decoded (Dict α) := do
  let entries ← (← value.members).mapM fun (key, member) => do return (key, ← decode member.1)
  return Dict.ofList entries

end Json

/-! ## Records -/

/-- The fields of a value opened as a record. -/
structure Record (whole : Json) where
  /-- The fields that are present. -/
  entries : List (String × Json.Part whole)

/-- The first name that occurs twice. -/
def firstDuplicate? : List String → Option String
  | [] => none
  | name :: rest => if rest.contains name then some name else firstDuplicate? rest

namespace Json

/-- Opens a value as the record of the given type, with the given fields.  Members of other names
are left out, or refused if the record is closed. -/
def fields (type : String) (names : List String) (closed : Bool) (value : Json) :
    Decoded (Record value) :=
  match value with
  | .object ms => do
    let entries ← members (.object ms)
    match entries.find? fun entry => closed && !names.contains entry.1 with
    | some (name, _) => .error (.unknownField name names)
    | none =>
      let known := entries.filter fun entry => names.contains entry.1
      match firstDuplicate? (known.map Prod.fst) with
      | some name => .error (.duplicateField name)
      | none => .ok ⟨known⟩
  | .array values => do
    let parts ← items (.array values)
    if names.length < values.length then .error (.tooLong values.length)
    else .ok ⟨names.zip parts⟩
  | value => .error (.wrongType value ("struct " ++ type))

end Json

namespace Record

variable {whole : Json} {α : Type}

/-- The value of a field, if the record has it. -/
def find? (r : Record whole) (name : String) : Option (Json.Part whole) := r.entries.lookup name

/-- A field that has to be present. -/
def required (r : Record whole) (name : String) (decode : Json.Part whole → Decoded α) :
    Decoded α :=
  match r.find? name with
  | some part => decode part
  | none => .error (.missingField name)

/-- A field that has a value of its own when it is missing. -/
def defaulted (r : Record whole) (name : String) (missing : α)
    (decode : Json.Part whole → Decoded α) : Decoded α :=
  match r.find? name with
  | some part => decode part
  | none => .ok missing

/-- A field that may be missing or null. -/
def optional (r : Record whole) (name : String) (decode : Json.Part whole → Decoded α) :
    Decoded (Option α) :=
  match r.find? name with
  | some ⟨.null, _⟩ | none => .ok none
  | some part => (decode part).map some

end Record

end TypedClient
