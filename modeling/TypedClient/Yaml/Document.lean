import TypedClient.Yaml.Node
import TypedClient.Yaml.Scalar

/-!
# Documents as values

The tree of a document becomes a value by putting what anchors name in place of references.

* `Node.anchored` lists what the anchors of a tree name;
* `valueOf` is the value of a node.  Collections nest at most 128 deep, references followed, which
  also ends a reference to what contains it;
* `read` reads a text.
-/

set_option autoImplicit false

namespace TypedClient.Yaml

/-- How deeply collections may nest. -/
def nestingLimit : Nat := 128

/-! ## Anchors -/

mutual

/-- The number of parts of a node: one for a scalar or a reference, and for a collection its
contents and its two ends. -/
def Node.parts : Node → Nat
  | .scalar .. | .aliasOf _ => 1
  | .sequence _ items => 2 + partsOfItems items
  | .mapping _ entries => 2 + partsOfEntries entries

/-- The number of parts of items. -/
def partsOfItems : List Node → Nat
  | [] => 0
  | item :: rest => item.parts + partsOfItems rest

/-- The number of parts of entries. -/
def partsOfEntries : List (Node × Node) → Nat
  | [] => 0
  | (key, value) :: rest => key.parts + value.parts + partsOfEntries rest

end

/-- The properties of a node. -/
def Node.properties : Node → Properties
  | .scalar p _ _ | .sequence p _ | .mapping p _ => p
  | .aliasOf _ => .none

/-- The anchor of a node with what it names. -/
def Node.named (node : Node) : List (Nat × Node) :=
  match node.properties.anchor with
  | some number => [(number, node)]
  | none => []

mutual

/-- What the anchors of a tree name, in the order of the text. -/
def Node.anchored : Node → List (Nat × Node)
  | .scalar p plain text => (Node.scalar p plain text).named
  | .aliasOf _ => []
  | .sequence p items => (Node.sequence p items).named ++ anchoredItems items
  | .mapping p entries => (Node.mapping p entries).named ++ anchoredEntries entries

/-- What the anchors of items name. -/
def anchoredItems : List Node → List (Nat × Node)
  | [] => []
  | item :: rest => item.anchored ++ anchoredItems rest

/-- What the anchors of entries name. -/
def anchoredEntries : List (Node × Node) → List (Nat × Node)
  | [] => []
  | (key, value) :: rest => key.anchored ++ value.anchored ++ anchoredEntries rest

end

/-- What is needed to follow references. -/
structure References where
  /-- What each number of an anchor names; of two nodes with one number the later one counts. -/
  targets : List (Nat × Node)
  /-- How many references may be followed. -/
  limit : Nat

/-- What is needed to follow the references of a tree. -/
def References.ofNode (node : Node) : References := ⟨node.anchored.reverse, 100 * node.parts⟩

/-- A step of evaluation; the state counts the references that have been followed. -/
abbrev Evaluation := StateT Nat Option

/-- The node that a node stands for. -/
def follow (refs : References) : Node → Evaluation Node
  | .aliasOf number => do
    let followed ← get
    if refs.limit ≤ followed then failure
    set (followed + 1)
    match refs.targets.lookup number with
    | some node => return node
    | none => failure
  | node => pure node

/-- The text of a key, which has to be a scalar. -/
def keyText (refs : References) (key : Node) : Evaluation String := do
  match ← follow refs key with
  | .scalar _ _ text => return text
  | _ => failure

/-! ## Values -/

/-- Whether a collection has a tag that leaves it without a value. -/
def isForeign (p : Properties) : Bool := p.tag.any isLocalTag

/-- The value of a node whose contents nest at most `depth` deep. -/
def valueOf (refs : References) : (depth : Nat) → Node → Evaluation Json
  | 0, node => do
    match ← follow refs node with
    | .scalar p plain text => StateT.lift (scalarValue? p.tag plain text)
    | _ => failure
  | depth + 1, node => do
    match ← follow refs node with
    | .scalar p plain text => StateT.lift (scalarValue? p.tag plain text)
    | .sequence p items =>
      if isForeign p then failure
      return .array (← items.mapM (valueOf refs depth))
    | .mapping p entries =>
      if isForeign p then failure
      let members ← entries.mapM fun (key, value) => do
        return (← keyText refs key, ← valueOf refs depth value)
      return .ofMembers members
    | .aliasOf _ => failure

/-- The value of the only document of a text; an empty text is null. -/
def read (text : String) : Option Json := do
  match ← document? text with
  | none => return .null
  | some node => return ((← (valueOf (.ofNode node) nestingLimit node).run 0)).1

end TypedClient.Yaml
