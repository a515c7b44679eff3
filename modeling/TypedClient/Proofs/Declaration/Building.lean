import TypedClient.Declaration.ToGraph
import TypedClient.Proofs.Types.Growth

/-!
# The graph of any declarations

Whatever declarations say, and however often they declare a name, the graph that is made of them is
in order: references lead to nodes and only nodes with names refer forwards.

* `Reached` says this of a graph that has been reached by placing expressions, and of the nodes that
  stand for them;
* `reached_place` is the case of one expression and `grown_define` that of one declaration;
* `grown_of_parseDeclarations` is what is known of the graph of a text.
-/

set_option autoImplicit false

namespace TypedClient.Declaration

open TypedClient.Types

/-- From the graph another one in order has been reached that has kept the nodes and has all of the
given ones. -/
structure Reached (g h : TypeGraph) (ids : List TypeId) : Prop where
  /-- The graph is in order. -/
  grown : h.Grown
  /-- It has kept the nodes. -/
  extended : g.Extends h
  /-- The ids are those of nodes. -/
  lt : ∀ id ∈ ids, id < h.size

variable {g h k : TypeGraph} {id : TypeId} {ids : List TypeId}

theorem Reached.refl (hg : g.Grown) : Reached g g [] := ⟨hg, .refl g, List.forall_mem_nil _⟩

/-- The nodes of two expressions, one placed after the other. -/
theorem Reached.cons (hgh : Reached g h [id]) (hhk : Reached h k ids) : Reached g k (id :: ids) :=
  ⟨hhk.grown, hgh.extended.trans hhk.extended, List.forall_mem_cons.2
    ⟨hhk.extended.lt (hgh.lt id (List.mem_singleton_self id)), hhk.lt⟩⟩

/-- A node on top of the ones that its shape refers to. -/
theorem Reached.addNode (kind : TypeKind) (h' : Reached g h kind.references) :
    Reached g (addNode h kind).1 [(addNode h kind).2] :=
  ⟨h'.grown.add h'.lt, h'.extended.trans (TypeGraph.extends_add h kind),
    List.forall_mem_singleton.2 (TypeGraph.isAnonymous_add h kind).lt⟩

theorem reached_reserve (hg : g.Grown) (name : String) :
    Reached g (g.reserve name).1 [(g.reserve name).2] :=
  ⟨hg.reserve name, TypeGraph.extends_reserve g name, List.forall_mem_singleton.2
    ((hg.reserve name).lt_of_lookup (TypeGraph.lookup_reserve g name))⟩

mutual

/-- **Placing an expression** leads to a graph in order and to a node of it. -/
theorem reached_place : ∀ (e : TypeExpr) {g : TypeGraph}, g.Grown →
    Reached g (place g e).1 [(place g e).2]
  | .unknown, _, hg => Reached.addNode .unknown (.refl hg)
  | .primitive p, _, hg => Reached.addNode (.primitive p) (.refl hg)
  | .literal value, _, hg => Reached.addNode (.enumeration [value]) (.refl hg)
  | .name name, _, hg => reached_reserve hg name
  | .array item, _, hg => Reached.addNode (.array _) (reached_place item hg)
  | .record value, _, hg => Reached.addNode (.map _) (reached_place value hg)
  | .object members, _, hg => Reached.addNode (.object _) (reached_placeMembers members hg)
  | .union members, g, hg => by
    rw [place]
    cases enumerationValues? members with
    | some values => exact Reached.addNode (.enumeration values) (.refl hg)
    | none => exact Reached.addNode (.union _) (reached_placeAll members hg)
  | .group inner, _, hg => reached_place inner hg
  | .noted inner _, _, hg => reached_place inner hg

theorem reached_placeAll : ∀ (es : List TypeExpr) {g : TypeGraph}, g.Grown →
    Reached g (placeAll g es).1 (placeAll g es).2
  | [], _, hg => .refl hg
  | e :: es, _, hg =>
    have hfirst := reached_place e hg
    hfirst.cons (reached_placeAll es hfirst.grown)

theorem reached_placeMembers : ∀ (members : List (Member TypeExpr)) {g : TypeGraph}, g.Grown →
    Reached g (placeMembers g members).1 ((placeMembers g members).2.map Field.type)
  | [], _, hg => .refl hg
  | ⟨_, _, type⟩ :: members, _, hg =>
    have hfirst := reached_place type hg
    hfirst.cons (reached_placeMembers members hfirst.grown)

end

/-! ## Declarations -/

/-- What a name is given that is declared as the type of a node: another named type lends its name
and an anonymous one its shape. -/
def declaredKind (g : TypeGraph) (target : TypeId) : TypeKind :=
  if (g.nameOf target).isSome then .union [target] else g.kind target

/-- The node of a declared name gets its shape from the node that its type is placed at. -/
theorem define_eq (g : TypeGraph) (s : Statement) :
    define g s = ((place (g.reserve s.name).1 s.type).1).setKind (g.reserve s.name).2
      (declaredKind (place (g.reserve s.name).1 s.type).1 (place (g.reserve s.name).1 s.type).2) :=
  rfl

theorem references_declaredKind {target : TypeId} (hg : g.Sound) (htarget : target < g.size) :
    ∀ child ∈ (declaredKind g target).references, child < g.size := by
  rw [declaredKind]
  split
  · exact List.forall_mem_singleton.2 htarget
  · exact hg.references target htarget

/-- A declaration keeps a graph in order, also if it declares a name again. -/
theorem grown_define (hg : g.Grown) (s : Statement) : (define g s).Grown := by
  have hreserved := reached_reserve hg s.name
  have hplaced := reached_place s.type hreserved.grown
  have hid : (g.reserve s.name).1.nameOf (g.reserve s.name).2 = some s.name :=
    hreserved.grown.nameOf_of_lookup (TypeGraph.lookup_reserve g s.name)
  rw [define_eq]
  refine hplaced.grown.setKind ?_ (references_declaredKind hplaced.grown.toSound
    (hplaced.lt _ (List.mem_singleton_self _)))
  rw [hplaced.extended.nameOf_eq (TypeGraph.lt_of_nameOf hid), hid]
  exact Option.some_ne_none _

theorem grown_graphOf (statements : List Statement) : (graphOf statements).Grown := by
  have h (g : TypeGraph) (hg : g.Grown) : (statements.foldl define g).Grown := by
    induction statements generalizing g with
    | nil => exact hg
    | cons s statements ih => exact ih _ (grown_define hg s)
  exact h _ .empty

/-- **The graph of a text is in order**, whatever the text is. -/
theorem grown_of_parseDeclarations {text : String} (h : parseDeclarations text = .ok g) :
    g.Grown := by
  rw [parseDeclarations] at h
  split at h
  · cases h
    exact grown_graphOf _
  · cases h

end TypedClient.Declaration
