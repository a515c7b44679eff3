import Mathlib.Logic.Relation
import TypedClient.Proofs.Types.Conformance
import TypedClient.Proofs.Types.Unbounded

/-!
# Equivalence of types

Nodes are compared as they stand in their graphs.  The comparison ends on closed graphs whose cycles
pass through named nodes, and what it decides is bisimilarity: that it never takes back what it
assumed of named nodes does no harm.  Bisimilarity is reflexive, symmetric and transitive, so
equivalence is.

* `Pointed` is a node of such a graph;
* `Bisimulation.identity` and `Bisimulation.comp` are two of the three laws, as bisimulations, next
  to `Bisimulation.flip`;
* `equivalent_decides_bisimilar` says what the comparison decides.

The walk that checks a value sees of a type what the comparison of types compares, and nothing else.
So it takes the same way through equivalent types and accepts the same values, even where its depth
ends.

* `KindsMatch.admits` is a single step of the walk: shapes that match admit the same values;
* `Bisimulation.checkWithin_iff` is a walk of any depth;
* `check_iff_of_equivalent` says the same of equivalent nodes.
-/

set_option autoImplicit false

namespace TypedClient.Types

/-! ## Bisimulations compose -/

section

variable {R S : TypeId → TypeId → Prop} {k l m : TypeKind} {g h i : TypeGraph}

/-- A shape matches itself if its children are related to themselves. -/
theorem KindsMatch.refl (hR : ∀ child ∈ k.references, R child child) : KindsMatch R k k := by
  cases k with
  | unknown => exact .unknown
  | primitive p => exact .primitive p
  | object fields =>
    refine .object (List.forall₂_same.2 fun field hfield => ⟨rfl, rfl, ?_⟩)
    exact hR field.type (List.mem_map_of_mem hfield)
  | map value => exact .map (hR value (List.mem_singleton_self _))
  | array item => exact .array (hR item (List.mem_singleton_self _))
  | enumeration values => exact .enumeration (Json.agreesItems_refl values)
  | union members => exact .union (List.forall₂_same.2 hR)

theorem KindsMatch.comp (hkl : KindsMatch R k l) (hlm : KindsMatch S l m) :
    KindsMatch (Relation.Comp R S) k m := by
  cases hkl with
  | unknown => cases hlm; exact .unknown
  | primitive p => cases hlm; exact .primitive p
  | object hkl =>
    cases hlm with
    | object hlm =>
      exact .object (forall₂_trans hkl hlm fun a b c hab hbc => ⟨hab.name.trans hbc.name,
        hab.required.trans hbc.required, b.type, hab.type, hbc.type⟩)
  | map hkl => cases hlm with | map hlm => exact .map ⟨_, hkl, hlm⟩
  | array hkl => cases hlm with | array hlm => exact .array ⟨_, hkl, hlm⟩
  | enumeration hkl =>
    cases hlm with
    | enumeration hlm => exact .enumeration (Json.agreesItems_trans _ hkl hlm)
  | union hkl =>
    cases hlm with
    | union hlm => exact .union (forall₂_trans hkl hlm fun a b c hab hbc => ⟨b, hab, hbc⟩)

/-- The identity on the nodes of a closed graph. -/
theorem Bisimulation.identity (hg : g.Closed) : Bisimulation g g fun a b => a = b ∧ a < g.size where
  lt := by
    rintro a _ ⟨rfl, ha⟩
    exact ⟨ha, ha⟩
  name := by
    rintro a _ ⟨rfl, -⟩
    rfl
  kind := by
    rintro a _ ⟨rfl, ha⟩
    exact KindsMatch.refl fun child hchild => ⟨rfl, hg.1 a ha child hchild⟩

theorem Bisimulation.comp (hR : Bisimulation g h R) (hS : Bisimulation h i S) :
    Bisimulation g i (Relation.Comp R S) where
  lt := fun ⟨_, hab, hbc⟩ => ⟨(hR.lt hab).1, (hS.lt hbc).2⟩
  name := fun ⟨_, hab, hbc⟩ => (hR.name hab).trans (hS.name hbc)
  kind := fun ⟨_, hab, hbc⟩ => (hR.kind hab).comp (hS.kind hbc)

end

/-! ## Nodes in their graphs -/

/-- A node of a closed graph in which every cycle passes through a named node. -/
structure Pointed where
  /-- The graph. -/
  graph : TypeGraph
  /-- The node. -/
  id : TypeId
  /-- The graph refers to its own nodes only. -/
  closed : graph.Closed
  /-- No cycle consists of anonymous nodes only. -/
  acyclic : graph.Acyclic
  /-- The node is one of the graph. -/
  lt : id < graph.size

namespace Pointed

/-- A linked list of texts whose tails may be texts. -/
def linkedList : Pointed where
  graph := {
    nodes := #[
      ⟨some "Node", .object [⟨"value", 1, true, none⟩, ⟨"next", 2, false, none⟩], none⟩,
      ⟨none, .primitive .string, none⟩,
      ⟨none, .union [0, 1], none⟩]
    names := [("Node", 0)] }
  id := 0
  closed := by unfold TypeGraph.Closed; decide
  acyclic := TypeGraph.acyclic_of_descending (by decide)
  lt := by decide

/-- The same linked list with a node for each text. -/
def linkedList' : Pointed where
  graph := {
    nodes := #[
      ⟨none, .primitive .string, none⟩,
      ⟨none, .primitive .string, none⟩,
      ⟨some "Node", .object [⟨"value", 0, true, none⟩, ⟨"next", 3, false, none⟩], none⟩,
      ⟨none, .union [2, 1], none⟩]
    names := [("Node", 2)] }
  id := 2
  closed := by unfold TypeGraph.Closed; decide
  acyclic := TypeGraph.acyclic_of_descending (by decide)
  lt := by decide

/-- Whether the types at two nodes are equivalent. -/
def equivalent (m n : Pointed) : Bool := Types.equivalent m.graph m.id n.graph n.id

/-- Some bisimulation relates two nodes. -/
def Bisimilar (m n : Pointed) : Prop := Types.Bisimilar m.graph n.graph m.id n.id

theorem equivalent_iff (m n : Pointed) : m.equivalent n = true ↔ m.Bisimilar n :=
  ⟨bisimilar_of_equivalent m.closed.1 n.closed.1 m.lt n.lt,
    fun ⟨_, hR, h⟩ => hR.equivalent m.closed.1 n.closed.1 m.acyclic h⟩

theorem Bisimilar.refl (m : Pointed) : m.Bisimilar m := ⟨_, .identity m.closed, rfl, m.lt⟩

theorem Bisimilar.symm {m n : Pointed} : m.Bisimilar n → n.Bisimilar m :=
  fun ⟨_, hR, h⟩ => ⟨_, hR.flip, h⟩

theorem Bisimilar.trans {m n o : Pointed} : m.Bisimilar n → n.Bisimilar o → m.Bisimilar o :=
  fun ⟨_, hR, h⟩ ⟨_, hS, h'⟩ => ⟨_, hR.comp hS, n.id, h, h'⟩

/-- **The comparison ends and decides bisimilarity**, and so it is an equivalence of nodes. -/
theorem equivalent_decides_bisimilar :
    (∀ m n : Pointed,
      equivalent? m.graph m.id n.graph n.id = some (Types.equivalent m.graph m.id n.graph n.id) ∧
        (Types.equivalent m.graph m.id n.graph n.id = true ↔
          ∃ R, Bisimulation m.graph n.graph R ∧ R m.id n.id)) ∧
      Equivalence fun m n : Pointed => Types.equivalent m.graph m.id n.graph n.id = true := by
  refine ⟨fun m n => ⟨?_, equivalent_iff m n⟩, fun m => ?_, fun {m n} h => ?_,
    fun {m n o} h h' => ?_⟩
  · exact equivalent?_eq m.closed.1 n.closed.1 m.acyclic m.lt n.lt
  · exact (equivalent_iff m m).2 (.refl m)
  · exact (equivalent_iff n m).2 ((equivalent_iff m n).1 h).symm
  · exact (equivalent_iff m o).2 (((equivalent_iff m n).1 h).trans ((equivalent_iff n o).1 h'))

theorem equivalent_decides_bisimilar_linkedList :
    Types.equivalent linkedList.graph 0 linkedList'.graph 2 = true ∧
      ∃ R, Bisimulation linkedList.graph linkedList'.graph R ∧ R 0 2 := by
  have hequivalent : Types.equivalent linkedList.graph 0 linkedList'.graph 2 = true := by decide
  exact ⟨hequivalent, (equivalent_decides_bisimilar.1 linkedList linkedList').2.1 hequivalent⟩

end Pointed

end TypedClient.Types

/-! ## Values of equivalent types -/

namespace TypedClient.Types

variable {R : TypeId → TypeId → Prop} {g h : TypeGraph}

theorem FieldsMatch.admits {a b : Field} {P Q : TypeId → Json → Prop} {members : Dict Json}
    (hab : FieldsMatch R a b) (hPQ : ∀ a b value, R a b → P a value → Q b value)
    (ha : FieldAdmits P members a) : FieldAdmits Q members b := by
  refine ⟨fun value hvalue => ?_, fun hrequired => ?_⟩
  · rw [← hab.name] at hvalue
    exact hPQ _ _ value hab.type (ha.present value hvalue)
  · rw [← hab.required] at hrequired
    rw [← hab.name]
    exact ha.required hrequired

/-- Of shapes that match, one admits what the other does, if the nodes that they refer to do. -/
theorem KindsMatch.admits {k l : TypeKind} {P Q : TypeId → Json → Prop} {value : Json}
    (hkl : KindsMatch R k l) (hPQ : ∀ a b value, R a b → P a value → Q b value)
    (h : Admits P k value) : Admits Q l value := by
  cases hkl with
  | unknown => trivial
  | primitive p => exact h
  | object hfields =>
    cases value with
    | object members =>
      intro b hb
      obtain ⟨a, ha, hab⟩ := exists_of_mem_right hfields hb
      exact hab.admits hPQ (h a ha)
    | _ => exact h
  | map hab =>
    cases value with
    | object members => exact fun member hmember => hPQ _ _ _ hab (h member hmember)
    | _ => exact h
  | array hab =>
    cases value with
    | array items => exact fun item hitem => hPQ _ _ _ hab (h item hitem)
    | _ => exact h
  | enumeration hvalues => exact Json.exists_agrees_of_agreesItems hvalues h
  | union hmembers =>
    obtain ⟨a, ha, hvalue⟩ := h
    obtain ⟨b, hb, hab⟩ := exists_of_mem_left hmembers ha
    exact ⟨b, hb, hPQ a b value hab hvalue⟩

/-- What a walk accepts at a node, it accepts at a related one. -/
theorem Bisimulation.checkWithin (hR : Bisimulation g h R) (steps : Nat) :
    ∀ a b value, R a b → Types.checkWithin g steps a value = .ok () →
      Types.checkWithin h steps b value = .ok () := by
  induction steps with
  | zero => exact fun _ _ _ _ _ => rfl
  | succ steps ih =>
    intro a b value hab hok
    exact checkWithin_succ_eq_ok.2 ((hR.kind hab).admits ih (checkWithin_succ_eq_ok.1 hok))

theorem Bisimulation.checkWithin_iff (hR : Bisimulation g h R) (steps : Nat) {a b : TypeId}
    (hab : R a b) (value : Json) :
    Types.checkWithin g steps a value = .ok () ↔ Types.checkWithin h steps b value = .ok () :=
  ⟨hR.checkWithin steps a b value hab, hR.flip.checkWithin steps b a value hab⟩

/-- **Equivalent types validate alike**, however deep the value is. -/
theorem check_iff_of_equivalent (m n : Pointed)
    (hequivalent : equivalent m.graph m.id n.graph n.id = true) (value : Json) :
    check m.graph m.id value = .ok () ↔ check n.graph n.id value = .ok () := by
  obtain ⟨_, hR, h⟩ := (m.equivalent_iff n).1 hequivalent
  exact hR.checkWithin_iff (depthLimit + 1) h value

theorem check_iff_of_equivalent_linkedList :
    equivalent Pointed.linkedList.graph 0 Pointed.linkedList'.graph 2 = true ∧
      ∀ value, check Pointed.linkedList.graph 0 value = .ok () ↔
        check Pointed.linkedList'.graph 2 value = .ok () := by
  have hequivalent : equivalent Pointed.linkedList.graph 0 Pointed.linkedList'.graph 2 = true := by
    decide
  exact ⟨hequivalent, check_iff_of_equivalent Pointed.linkedList Pointed.linkedList' hequivalent⟩

end TypedClient.Types
