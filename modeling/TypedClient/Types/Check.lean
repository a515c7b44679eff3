import TypedClient.Types.Describe

/-!
# Values of a type

Whether a value belongs to a type is decided by walking both at once.  Members that an object type
does not declare are allowed.  The walk goes at most 128 steps deep; what lies deeper belongs to any
type, which ends the walk on types that go in circles.

* `checkWithin` is the walk;
* `check` finds the first mismatch.
-/

set_option autoImplicit false

namespace TypedClient.Types

/-- The outcome of a check. -/
abbrev Checked := Except Mismatch Unit

/-- A problem at the place that is looked at. -/
def problemHere (problem : Problem) : Checked := .error ⟨[], problem⟩

/-- The outcome for a part as an outcome for the whole. -/
def Checked.under (step : Step) : Checked → Checked
  | .ok () => .ok ()
  | .error m => .error { m with path := step :: m.path }

/-- Whether a value is of a scalar type. -/
def Primitive.admits : Primitive → Json → Bool
  | .string, .string _ | .number, .number _ | .boolean, .bool _ | .null, .null => true
  | _, _ => false

/-- Checks the items of a list that starts at a position, in order. -/
def checkItems (check : Json → Checked) (position : Nat) : List Json → Checked
  | [] => .ok ()
  | item :: rest => do
    (check item).under (.index position)
    checkItems check (position + 1) rest

/-- Checks the members of an object, in order. -/
def checkMembers (check : Json → Checked) : List (String × Json) → Checked
  | [] => .ok ()
  | (name, value) :: rest => do
    (check value).under (.member name)
    checkMembers check rest

/-- Checks the members of an object that fields declare, in the order of the fields. -/
def checkFields (check : TypeId → Json → Checked) (members : Dict Json) : List Field → Checked
  | [] => .ok ()
  | field :: rest => do
    match Dict.get? members field.name with
    | some value => (check field.type value).under (.member field.name)
    | none => if field.required then problemHere (.missing field.name) else .ok ()
    checkFields check members rest

/-- Checks a value against the members of a union.  The problem of a single member is the problem of
the union. -/
def checkUnion (check : TypeId → Checked) (otherwise : Checked) (members : List TypeId) : Checked :=
  match members with
  | [member] => check member
  | members => if members.any fun member => (check member).isOk then .ok () else otherwise

/-- Checks a value against a type, at most `steps` steps deep. -/
def checkWithin (g : TypeGraph) : (steps : Nat) → TypeId → Json → Checked
  | 0, _, _ => .ok ()
  | steps + 1, id, value =>
    let otherKind : Checked := problemHere (.otherKind id value)
    match g.kind id, value with
    | .unknown, _ => .ok ()
    | .primitive p, value => if p.admits value then .ok () else otherKind
    | .enumeration values, value =>
      if values.any (·.agrees value) then .ok () else problemHere (.unlisted id value)
    | .array item, .array items => checkItems (checkWithin g steps item) 0 items
    | .map entry, .object members => checkMembers (checkWithin g steps entry) members
    | .object fields, .object members => checkFields (checkWithin g steps) members fields
    | .union members, value =>
      checkUnion (fun member => checkWithin g steps member value) otherKind members
    | .array _, _ | .map _, _ | .object _, _ => otherKind

/-- How many steps deep a value is looked at. -/
def depthLimit : Nat := 128

/-- Checks a value against a type. -/
def check (g : TypeGraph) (id : TypeId) (value : Json) : Checked :=
  checkWithin g (depthLimit + 1) id value

end TypedClient.Types
