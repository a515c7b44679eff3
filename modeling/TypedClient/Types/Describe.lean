import TypedClient.Json.Printer
import TypedClient.Types.Graph

/-!
# Messages about types

Messages refer to a type by a short text: its name, or else its shape down to the next names.

* `TypeGraph.describe` is the text of a type;
* `Mismatch` says where a value does not belong to a type, and why, and `Mismatch.message` words it.
-/

set_option autoImplicit false

namespace TypedClient.Types

/-! ## Descriptions -/

namespace TypeGraph

/-- The description of a type that looks at most `steps` anonymous nodes deep. -/
def describeWithin (g : TypeGraph) : (steps : Nat) → TypeId → String
  | 0, _ => "unknown"
  | steps + 1, id =>
    match g.nameOf id with
    | some name => name
    | none =>
      match g.kind id with
      | .unknown => "unknown"
      | .primitive p => p.text
      | .object _ => "object"
      | .map value => "map<" ++ g.describeWithin steps value ++ ">"
      | .array item => g.describeWithin steps item ++ "[]"
      | .enumeration values => String.intercalate " | " (values.map Json.compact)
      | .union members => String.intercalate " | " (members.map (g.describeWithin steps))

/-- The description of a type.  Anonymous nodes form no cycle, so a descent through them ends
before it has seen more nodes than there are. -/
def describe (g : TypeGraph) (id : TypeId) : String := g.describeWithin (g.size + 1) id

end TypeGraph

/-! ## Mismatches -/

/-- A step from a value to one of its parts. -/
inductive Step where
  /-- To an item of a list. -/
  | index (position : Nat)
  /-- To a member of an object. -/
  | member (name : String)
  deriving DecidableEq, Repr

/-- A step as part of a path. -/
def Step.text : Step → String
  | .index position => "[" ++ toString position ++ "]"
  | .member name => "." ++ name

/-- What is wrong with a value. -/
inductive Problem where
  /-- It is of another kind than the type, or of none of the kinds of a union. -/
  | otherKind (type : TypeId) (value : Json)
  /-- It is no value of an enumeration. -/
  | unlisted (type : TypeId) (value : Json)
  /-- It lacks a member. -/
  | missing (field : String)

/-- A place in a value where it does not belong to its type. -/
structure Mismatch where
  /-- The way to the place. -/
  path : List Step
  /-- What is wrong there. -/
  problem : Problem

/-- The wording of a problem. -/
def Problem.message (g : TypeGraph) : Problem → String
  | .otherKind type value => "expected " ++ g.describe type ++ ", got " ++ value.kindName
  | .unlisted type value => value.compact ++ " is not one of " ++ g.describe type
  | .missing field => "missing required field `" ++ field ++ "`"

/-- The wording of a mismatch. -/
def Mismatch.message (g : TypeGraph) (m : Mismatch) : String :=
  "$" ++ String.join (m.path.map Step.text) ++ ": " ++ m.problem.message g

end TypedClient.Types
