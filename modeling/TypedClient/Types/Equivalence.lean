import TypedClient.Types.Graph

/-!
# Equivalence of types

Two types are equivalent when their graphs cannot be told apart from them by walking along the
edges: same names, same shapes, equivalent children.  The comparison walks both graphs at once.
Pairs of named nodes that have been entered are assumed to be equivalent from then on, which is
what ends the walk on cycles.

* `equivalent` compares two nodes, of one graph or of two;
* `TypeGraph.covers` asks whether every named type of a graph has an equivalent one of the same
  name in another.
-/

set_option autoImplicit false

namespace TypedClient.Types

/-- The pairs of named nodes that are assumed to be equivalent. -/
abbrev Assumed := List (TypeId × TypeId)

/-- Runs a comparison on the members of two lists, pair by pair; the lists have to be equally
long. -/
def compareAll {α : Type} (compare : α → α → Assumed → Option Assumed) :
    List α → List α → Assumed → Option Assumed
  | [], [], assumed => some assumed
  | a :: as, b :: bs, assumed => (compare a b assumed).bind (compareAll compare as bs)
  | _, _, _ => none

/-- Compares two shapes, the children by `compare`. -/
def compareKinds (compare : TypeId → TypeId → Assumed → Option Assumed) (assumed : Assumed) :
    TypeKind → TypeKind → Option Assumed
  | .unknown, .unknown => some assumed
  | .primitive a, .primitive b => if a = b then some assumed else none
  | .object as, .object bs =>
    compareAll
      (fun a b assumed =>
        if a.name = b.name ∧ a.required = b.required then compare a.type b.type assumed else none)
      as bs assumed
  | .map a, .map b => compare a b assumed
  | .array a, .array b => compare a b assumed
  | .enumeration as, .enumeration bs => if Json.agreesItems as bs then some assumed else none
  | .union as, .union bs => compareAll compare as bs assumed
  | _, _ => none

/-- Compares two nodes, at most `steps` edges deep: the pairs assumed afterwards, or nothing if a
difference was found. -/
def compareNodes (g h : TypeGraph) :
    (steps : Nat) → TypeId → TypeId → Assumed → Option Assumed
  | 0, _, _, _ => none
  | steps + 1, a, b, assumed =>
    if (g.node a).name ≠ (h.node b).name then none
    else if (g.node a).name.isNone then
      compareKinds (compareNodes g h steps) assumed (g.kind a) (h.kind b)
    else if assumed.contains (a, b) then some assumed
    else compareKinds (compareNodes g h steps) ((a, b) :: assumed) (g.kind a) (h.kind b)

/-- A bound on the depth of a comparison.  Along one path each pair of named nodes is entered once,
and between two of them lie fewer anonymous nodes than the first graph has. -/
def comparisonDepth (g h : TypeGraph) : Nat := (g.size * h.size + 1) * (g.size + 1) + 1

/-- Whether two nodes are equivalent. -/
def equivalent (g : TypeGraph) (a : TypeId) (h : TypeGraph) (b : TypeId) : Bool :=
  (compareNodes g h (comparisonDepth g h) a b []).isSome

/-- Whether every named type of `g` has an equivalent type of the same name in `h`. -/
def TypeGraph.covers (g h : TypeGraph) : Bool :=
  g.names.all fun (name, id) =>
    match h.lookup name with
    | some other => equivalent g id h other
    | none => false

end TypedClient.Types
