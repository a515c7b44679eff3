import TypedClient.Yaml.Document

/-!
# Documents of a known shape

Where it is known what a value has to be, a scalar need not be written as that: any scalar is a text
where a text is expected, so `5` and `true` are.  A shape says what is expected, and `shapedValue`
gives the value of a node as that, ready for the decoder of the record.  What does not fit is
refused here or by the decoder.

* `Shape` is what can be expected;
* `readShaped` reads a text.
-/

set_option autoImplicit false

namespace TypedClient.Yaml

/-- What a node is expected to be. -/
inductive Shape where
  /-- A text. -/
  | text
  /-- A truth value. -/
  | flag
  /-- The name of a choice. -/
  | choice
  /-- Something of a shape, or null. -/
  | optional (shape : Shape)
  /-- Members of one shape. -/
  | dict (shape : Shape)
  /-- The fields of a record, in their order. -/
  | record (fields : List (String × Shape))
  /-- What no field takes; it is left for the decoder to refuse. -/
  | unexpected

/-- Whether a scalar without marks and of the given tag and text is null. -/
def isNullScalar (tag : Option String) (text : String) : Option Bool :=
  match tag with
  | none => some (text.isEmpty || isNull text)
  | some "tag:yaml.org,2002:null" => if isNull text then some true else none
  | some _ => some false

/-- Whether a node is null where null is an option. -/
def isNullNode : Node → Option Bool
  | .scalar p true text => isNullScalar p.tag text
  | _ => some false

/-- Whether a node is an empty place. -/
def isAbsent : Node → Bool
  | .scalar _ plain text => plain && text.isEmpty
  | _ => false

/-- The value of a scalar that is expected to be a truth value. -/
def flagValue (p : Properties) (plain : Bool) (text : String) : Option Json :=
  let fits :=
    match p.tag with
    | some tag => tag == "tag:yaml.org,2002:bool"
    | none => plain
  if fits then (truth? text).map .bool else none

/-- The value of a scalar that is expected to be the name of a choice.  A local tag on nothing is a
name as well. -/
def choiceValue (p : Properties) (plain : Bool) (text : String) : Option Json :=
  match p.tag with
  | some tag =>
    if !isLocalTag tag then some (.string text)
    else if plain && (text.isEmpty || isNull text) then
      some (.string (if tag = "!" then "!" else .ofList (tag.toList.drop 1)))
    else none
  | none => some (.string text)

/-- The value of a node that is expected to have the given shape and whose contents nest at most
`depth` deep. -/
def shapedValue (refs : References) : (depth : Nat) → Shape → Node → Evaluation Json
  | depth, shape, node => do
    let node ← follow refs node
    match shape, node, depth with
    | .text, .scalar _ _ text, _ => return .string text
    | .flag, .scalar p plain text, _ => StateT.lift (flagValue p plain text)
    | .choice, .scalar p plain text, _ => StateT.lift (choiceValue p plain text)
    | .optional inner, node, depth =>
      match ← StateT.lift (isNullNode node) with
      | true => return .null
      | false => shapedValue refs depth inner node
    | .dict inner, .mapping _ entries, depth + 1 =>
      let members ← entries.mapM fun (key, value) => do
        return (← keyText refs key, ← shapedValue refs depth inner value)
      return .ofMembers members
    | .record fields, .mapping _ entries, depth + 1 =>
      let members ← entries.mapM fun (key, value) => do
        let name ← keyText refs key
        match fields.lookup name with
        | some inner => return (name, ← shapedValue refs depth inner value)
        | none => return (name, .null)
      return .object members
    | .record fields, .sequence _ items, depth + 1 =>
      let shapes := fields.map Prod.snd
      let values ← (items.zip (shapes ++ List.replicate items.length .unexpected)).mapM
        fun (item, inner) => shapedValue refs depth inner item
      return .array values
    | .dict _, node, _ | .record _, node, _ =>
      if isAbsent node then return .object [] else failure
    | .unexpected, _, _ => return .null
    | _, _, _ => failure
termination_by depth shape => (depth, sizeOf shape)

/-- The value of the only document of a text, read as the given shape; an empty text is a record
without fields. -/
def readShaped (shape : Shape) (text : String) : Option Json := do
  match ← document? text with
  | none => return .object []
  | some node => return (← (shapedValue (.ofNode node) nestingLimit shape node).run 0).1

end TypedClient.Yaml
