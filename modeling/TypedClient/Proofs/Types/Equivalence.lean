import Mathlib.Data.Finset.Card
import Mathlib.Logic.Relation
import TypedClient.Proofs.Json.Agreement
import TypedClient.Proofs.Lists
import TypedClient.Proofs.Types.Growth
import TypedClient.Types.Equivalence

/-!
# Equivalent types are bisimilar

The comparison of two graphs walks both at once and assumes of named pairs that it has entered that
they are equivalent.  This file says what it has found when it succeeds.

* `KindsMatch` relates two shapes whose children are related, and `Bisimulation` is a relation of
  nodes that goes on at the children;
* `TypeGraph.Acyclic` says that no cycle consists of anonymous nodes only, which bounds the number
  of anonymous nodes in a row (`depthAtMost_size`);
* `bisimilar_of_equivalent` says that nodes on which the comparison succeeds are bisimilar.
-/

set_option autoImplicit false

namespace TypedClient.Types

/-! ## Bisimulations -/

/-- Two fields of one name, both required or neither, whose types are related. -/
structure FieldsMatch (R : TypeId → TypeId → Prop) (a b : Field) : Prop where
  /-- The names are the same. -/
  name : a.name = b.name
  /-- Both are required or neither is. -/
  required : a.required = b.required
  /-- The types are related. -/
  type : R a.type b.type

/-- Two shapes of one form, with related children. -/
inductive KindsMatch (R : TypeId → TypeId → Prop) : TypeKind → TypeKind → Prop
  /-- Nothing is known of either. -/
  | unknown : KindsMatch R .unknown .unknown
  /-- The same scalar type. -/
  | primitive (p : Primitive) : KindsMatch R (.primitive p) (.primitive p)
  /-- Object types with the same fields in the same order. -/
  | object {as bs : List Field} (h : List.Forall₂ (FieldsMatch R) as bs) :
      KindsMatch R (.object as) (.object bs)
  /-- Objects with members of one type. -/
  | map {a b : TypeId} (h : R a b) : KindsMatch R (.map a) (.map b)
  /-- Lists. -/
  | array {a b : TypeId} (h : R a b) : KindsMatch R (.array a) (.array b)
  /-- The same values in the same order. -/
  | enumeration {as bs : List Json} (h : Json.agreesItems as bs = true) :
      KindsMatch R (.enumeration as) (.enumeration bs)
  /-- Related members in the same order. -/
  | union {as bs : List TypeId} (h : List.Forall₂ R as bs) : KindsMatch R (.union as) (.union bs)

/-- A relation of nodes that have the same name and matching shapes. -/
structure Bisimulation (g h : TypeGraph) (R : TypeId → TypeId → Prop) : Prop where
  /-- Related ids are those of nodes. -/
  lt : ∀ {a b}, R a b → a < g.size ∧ b < h.size
  /-- Related nodes have the same name or both none. -/
  name : ∀ {a b}, R a b → g.nameOf a = h.nameOf b
  /-- Related nodes have matching shapes. -/
  kind : ∀ {a b}, R a b → KindsMatch R (g.kind a) (h.kind b)

variable {R S : TypeId → TypeId → Prop} {k l : TypeKind}

theorem KindsMatch.mono (h : KindsMatch R k l)
    (himp : ∀ a ∈ k.references, ∀ b ∈ l.references, R a b → S a b) : KindsMatch S k l := by
  cases h with
  | unknown => exact .unknown
  | primitive p => exact .primitive p
  | object h =>
    refine .object (forall₂_mono h fun a ha b hb hab => ⟨hab.name, hab.required, ?_⟩)
    exact himp _ (List.mem_map_of_mem ha) _ (List.mem_map_of_mem hb) hab.type
  | map h => exact .map (himp _ (List.mem_singleton_self _) _ (List.mem_singleton_self _) h)
  | array h => exact .array (himp _ (List.mem_singleton_self _) _ (List.mem_singleton_self _) h)
  | enumeration h => exact .enumeration h
  | union h => exact .union (forall₂_mono h himp)

/-- Shapes match in both directions. -/
theorem KindsMatch.flip (h : KindsMatch R k l) : KindsMatch (fun b a => R a b) l k := by
  cases h with
  | unknown => exact .unknown
  | primitive p => exact .primitive p
  | object h =>
    exact .object (h.flip.imp fun _ _ hab => ⟨hab.name.symm, hab.required.symm, hab.type⟩)
  | map h => exact .map h
  | array h => exact .array h
  | enumeration h => exact .enumeration (by rwa [Json.agreesItems_comm])
  | union h => exact .union h.flip

theorem Bisimulation.flip {g h : TypeGraph} (hR : Bisimulation g h R) :
    Bisimulation h g fun b a => R a b :=
  ⟨fun hab => (hR.lt hab).symm, fun hab => (hR.name hab).symm, fun hab => (hR.kind hab).flip⟩

/-! ## Anonymous nodes in a row -/

namespace TypeGraph

/-- An anonymous node refers to an anonymous node. -/
structure Hops (g : TypeGraph) (a b : TypeId) : Prop where
  /-- The first node is anonymous. -/
  source : g.nameOf a = none
  /-- It refers to the second. -/
  child : b ∈ (g.kind a).references
  /-- The second is anonymous, too. -/
  target : g.nameOf b = none

/-- No cycle consists of anonymous nodes only. -/
def Acyclic (g : TypeGraph) : Prop := ∀ id, ¬Relation.TransGen g.Hops id id

/-- At most so many anonymous nodes follow each other from a node on. -/
inductive DepthAtMost (g : TypeGraph) : Nat → TypeId → Prop
  /-- A named node ends the row. -/
  | named {depth : Nat} {id : TypeId} (h : g.nameOf id ≠ none) : DepthAtMost g depth id
  /-- An anonymous node comes before its children. -/
  | anonymous {depth : Nat} {id : TypeId}
      (h : ∀ child ∈ (g.kind id).references, DepthAtMost g depth child) :
      DepthAtMost g (depth + 1) id

variable {g : TypeGraph}

theorem DepthAtMost.mono {depth bound : Nat} {id : TypeId} (h : g.DepthAtMost depth id)
    (hle : depth ≤ bound) : g.DepthAtMost bound id := by
  induction h generalizing bound with
  | named h => exact .named h
  | anonymous _ ih =>
    obtain ⟨bound, rfl⟩ : ∃ n, bound = n + 1 := ⟨bound - 1, by omega⟩
    exact .anonymous fun child hchild => ih child hchild (Nat.le_of_succ_le_succ hle)

/-- Where anonymous nodes refer to earlier nodes only, they are in no cycle. -/
theorem acyclic_of_descending (hdescending : ∀ id < g.size, g.nameOf id = none →
    ∀ child ∈ (g.kind id).references, child < id) : g.Acyclic := by
  have hstep {a b : TypeId} (h : g.Hops a b) : b < a := by
    exact hdescending a (lt_of_mem_references h.child) h.source b h.child
  have hpath {a b : TypeId} (h : Relation.TransGen g.Hops a b) : b < a := by
    induction h with
    | single h => exact hstep h
    | tail _ h ih => exact Nat.lt_trans (hstep h) ih
  exact fun id h => Nat.lt_irrefl id (hpath h)

theorem Grown.acyclic (hg : g.Grown) : g.Acyclic := acyclic_of_descending hg.descending

open Classical in
/-- The nodes that follow a node in rows of anonymous nodes. -/
noncomputable def followers (g : TypeGraph) (id : TypeId) : Finset TypeId :=
  (Finset.range g.size).filter fun other => Relation.TransGen g.Hops id other

/-- A node that an anonymous node leads to has fewer followers. -/
theorem followers_ssubset (hacyclic : g.Acyclic) {a b : TypeId} (h : g.Hops a b) (hb : b < g.size) :
    g.followers b ⊂ g.followers a := by
  classical
  refine Finset.ssubset_iff_subset_ne.2 ⟨fun c hc => ?_, fun heq => ?_⟩
  · obtain ⟨hlt, hpath⟩ := Finset.mem_filter.1 hc
    exact Finset.mem_filter.2 ⟨hlt, .head h hpath⟩
  · have hmem : b ∈ g.followers a := Finset.mem_filter.2 ⟨Finset.mem_range.2 hb, .single h⟩
    rw [← heq] at hmem
    exact hacyclic b (Finset.mem_filter.1 hmem).2

/-- **A row of anonymous nodes is no longer than the graph**, if there is no cycle of such nodes. -/
theorem depthAtMost_size
    (hreferences : ∀ id < g.size, ∀ child ∈ (g.kind id).references, child < g.size)
    (hacyclic : g.Acyclic) {id : TypeId} (hid : id < g.size) : g.DepthAtMost g.size id := by
  classical
  have hdepth (n : Nat) : ∀ id < g.size, (g.followers id).card ≤ n →
      g.DepthAtMost ((g.followers id).card + 1) id := by
    induction n with
    | zero =>
      intro id hid hcard
      by_cases hname : g.nameOf id = none
      · refine .anonymous fun child hchild => .named fun hchildName => ?_
        have hlt := hreferences id hid child hchild
        have := Finset.card_lt_card (followers_ssubset hacyclic ⟨hname, hchild, hchildName⟩ hlt)
        omega
      · exact .named hname
    | succ n ih =>
      intro id hid hcard
      by_cases hname : g.nameOf id = none
      · refine .anonymous fun child hchild => ?_
        have hlt := hreferences id hid child hchild
        by_cases hchildName : g.nameOf child = none
        · have hless := Finset.card_lt_card
            (followers_ssubset hacyclic ⟨hname, hchild, hchildName⟩ hlt)
          exact (ih child hlt (by omega)).mono (by omega)
        · exact .named hchildName
      · exact .named hname
  refine (hdepth _ id hid (Nat.le_refl _)).mono ?_
  have hsub : g.followers id ⊂ Finset.range g.size := by
    refine Finset.ssubset_iff_subset_ne.2 ⟨Finset.filter_subset _ _, fun heq => ?_⟩
    have hmem := Finset.mem_range.2 hid
    rw [← heq] at hmem
    exact hacyclic id (Finset.mem_filter.1 hmem).2
  have hcard := Finset.card_lt_card hsub
  rwa [Finset.card_range] at hcard

end TypeGraph

/-! ## What a comparison has found -/

/-- A comparison of two nodes has succeeded and assumed no more than the given pairs. -/
def FoundAlike (compare : TypeId → TypeId → Assumed → Option Assumed) (bound : Assumed)
    (a b : TypeId) : Prop :=
  ∃ before after, compare a b before = some after ∧ after ⊆ bound

/-- The shapes of the pair have been compared, and no more than the given pairs were assumed. -/
def ComparedWithin (g h : TypeGraph) (bound : Assumed) (pair : TypeId × TypeId) : Prop :=
  ∃ steps before after, compareKinds (compareNodes g h steps) before (g.kind pair.1)
    (h.kind pair.2) = some after ∧ after ⊆ bound

/-- Of the pairs assumed afterwards, those that are new have been compared. -/
structure Explained (g h : TypeGraph) (assumed later : Assumed) : Prop where
  /-- The pairs assumed before are still assumed. -/
  kept : assumed ⊆ later
  /-- The others have been compared. -/
  compared : ∀ pair ∈ later, pair ∈ assumed ∨ ComparedWithin g h later pair

section Explained

variable {g h : TypeGraph} {x y z : Assumed}

theorem FoundAlike.mono {compare : TypeId → TypeId → Assumed → Option Assumed} {a b : TypeId}
    (hab : FoundAlike compare x a b) (hxy : x ⊆ y) : FoundAlike compare y a b := by
  obtain ⟨before, after, hcompare, hafter⟩ := hab
  exact ⟨before, after, hcompare, List.Subset.trans hafter hxy⟩

theorem Explained.refl (x : Assumed) : Explained g h x x :=
  ⟨List.Subset.refl x, fun _ hpair => .inl hpair⟩

theorem Explained.trans (hxy : Explained g h x y) (hyz : Explained g h y z) :
    Explained g h x z := by
  refine ⟨List.Subset.trans hxy.kept hyz.kept, fun pair hpair => ?_⟩
  rcases hyz.compared pair hpair with hpair | hcompared
  · rcases hxy.compared pair hpair with hpair | ⟨steps, before, after, hcompare, hafter⟩
    · exact .inl hpair
    · exact .inr ⟨steps, before, after, hcompare, List.Subset.trans hafter hyz.kept⟩
  · exact .inr hcompared

variable {compare : TypeId → TypeId → Assumed → Option Assumed}

theorem explained_all {α : Type} {compareItems : α → α → Assumed → Option Assumed}
    {T : Assumed → α → α → Prop} (hmono : ∀ {x y a b}, T x a b → x ⊆ y → T y a b)
    (hitems : ∀ a b x y, compareItems a b x = some y → Explained g h x y ∧ T y a b) {as bs : List α}
    (hall : compareAll compareItems as bs x = some y) :
    Explained g h x y ∧ List.Forall₂ (T y) as bs := by
  induction as generalizing bs x with
  | nil =>
    cases bs with
    | nil => cases hall; exact ⟨.refl _, .nil⟩
    | cons => cases hall
  | cons a as ih =>
    cases bs with
    | nil => cases hall
    | cons b bs =>
      obtain ⟨z, hfirst, hrest⟩ := Option.bind_eq_some_iff.1 hall
      obtain ⟨hxz, hab⟩ := hitems a b x z hfirst
      obtain ⟨hzy, hothers⟩ := ih hrest
      exact ⟨hxz.trans hzy, .cons (hmono hab hzy.kept) hothers⟩

theorem explained_kinds (hnodes : ∀ a b x y, compare a b x = some y → Explained g h x y)
    (hkinds : compareKinds compare x k l = some y) :
    Explained g h x y ∧ KindsMatch (FoundAlike compare y) k l := by
  have hnodes' (a b : TypeId) (x y : Assumed) (hab : compare a b x = some y) :
      Explained g h x y ∧ FoundAlike compare y a b :=
    ⟨hnodes a b x y hab, x, y, hab, List.Subset.refl y⟩
  rw [compareKinds.eq_def] at hkinds
  split at hkinds
  · cases hkinds
    exact ⟨.refl _, .unknown⟩
  · split at hkinds
    · rename_i heq
      cases hkinds
      subst heq
      exact ⟨.refl _, .primitive _⟩
    · cases hkinds
  · obtain ⟨hxy, hall⟩ := explained_all (T := fun x => FieldsMatch (FoundAlike compare x))
      (fun hab hsub => ⟨hab.name, hab.required, hab.type.mono hsub⟩) (fun a b x y hab => by
        split at hab
        · rename_i hsame
          obtain ⟨hxy, htype⟩ := hnodes' _ _ _ _ hab
          exact ⟨hxy, hsame.1, hsame.2, htype⟩
        · cases hab) hkinds
    exact ⟨hxy, .object hall⟩
  · obtain ⟨hxy, hab⟩ := hnodes' _ _ _ _ hkinds
    exact ⟨hxy, .map hab⟩
  · obtain ⟨hxy, hab⟩ := hnodes' _ _ _ _ hkinds
    exact ⟨hxy, .array hab⟩
  · split at hkinds
    · rename_i heq
      cases hkinds
      exact ⟨.refl _, .enumeration heq⟩
    · cases hkinds
  · obtain ⟨hxy, hall⟩ := explained_all (fun hab hsub => hab.mono hsub) hnodes' hkinds
    exact ⟨hxy, .union hall⟩
  · cases hkinds

theorem explained_nodes (steps : Nat) :
    ∀ a b x y, compareNodes g h steps a b x = some y → Explained g h x y := by
  induction steps with
  | zero => exact fun _ _ _ _ hab => nomatch hab
  | succ steps ih =>
    intro a b x y hab
    rw [compareNodes] at hab
    split at hab
    · cases hab
    split at hab
    · exact (explained_kinds ih hab).1
    split at hab
    · cases hab
      exact .refl _
    · obtain ⟨hkept, hcompared⟩ := (explained_kinds ih hab).1
      refine ⟨List.Subset.trans (List.subset_cons_self _ _) hkept, fun pair hpair => ?_⟩
      rcases hcompared pair hpair with hpair | hcompared
      · rcases List.mem_cons.1 hpair with rfl | hpair
        · exact .inr ⟨steps, _, y, hab, List.Subset.refl y⟩
        · exact .inl hpair
      · exact .inr hcompared

end Explained

/-- Two nodes are bisimilar if a bisimulation relates them. -/
def Bisimilar (g h : TypeGraph) (a b : TypeId) : Prop := ∃ R, Bisimulation g h R ∧ R a b

/-- Bisimilarity is the largest bisimulation. -/
theorem bisimulation_bisimilar (g h : TypeGraph) : Bisimulation g h (Bisimilar g h) where
  lt := fun ⟨_, hR, hab⟩ => hR.lt hab
  name := fun ⟨_, hR, hab⟩ => hR.name hab
  kind := fun ⟨R, hR, hab⟩ => (hR.kind hab).mono fun _ _ _ _ hcd => ⟨R, hR, hcd⟩

/-- **Equivalent nodes are bisimilar**: the pairs that were assumed on the way are all compared in
the end. -/
theorem bisimilar_of_equivalent {g h : TypeGraph}
    (hg : ∀ id < g.size, ∀ child ∈ (g.kind id).references, child < g.size)
    (hh : ∀ id < h.size, ∀ child ∈ (h.kind id).references, child < h.size) {a b : TypeId}
    (ha : a < g.size) (hb : b < h.size) (hab : equivalent g a h b = true) : Bisimilar g h a b := by
  obtain ⟨all, hall⟩ := Option.isSome_iff_exists.1 hab
  have hcompared : ∀ pair ∈ all, ComparedWithin g h all pair := by
    intro pair hpair
    exact ((explained_nodes _ a b [] all hall).compared pair hpair).resolve_left List.not_mem_nil
  let R (a b : TypeId) : Prop :=
    a < g.size ∧ b < h.size ∧ ∃ steps, FoundAlike (compareNodes g h steps) all a b
  have hkinds {a b : TypeId} (ha : a < g.size) (hb : b < h.size) {steps : Nat}
      {before after : Assumed}
      (hkinds : compareKinds (compareNodes g h steps) before (g.kind a) (h.kind b) = some after)
      (hafter : after ⊆ all) : KindsMatch R (g.kind a) (h.kind b) := by
    refine (explained_kinds (explained_nodes steps) hkinds).2.mono fun c hc d hd hcd => ?_
    exact ⟨hg a ha c hc, hh b hb d hd, steps, hcd.mono hafter⟩
  refine ⟨R, ⟨fun hab => ⟨hab.1, hab.2.1⟩, fun {a b} hab => ?_, fun {a b} hab => ?_⟩,
    ha, hb, _, [], all, hall, List.Subset.refl all⟩
  · obtain ⟨-, -, steps, before, after, hcompare, -⟩ := hab
    cases steps with
    | zero => cases hcompare
    | succ steps =>
      rw [compareNodes] at hcompare
      split at hcompare
      · cases hcompare
      · exact Decidable.not_not.1 ‹_›
  · obtain ⟨ha, hb, steps, before, after, hcompare, hafter⟩ := hab
    cases steps with
    | zero => cases hcompare
    | succ steps =>
      rw [compareNodes] at hcompare
      split at hcompare
      · cases hcompare
      split at hcompare
      · exact hkinds ha hb hcompare hafter
      split at hcompare
      · rename_i hmem
        cases hcompare
        obtain ⟨steps, before, after, hcompare, hafter'⟩ :=
          hcompared (a, b) (hafter (List.contains_iff_mem.1 hmem))
        exact hkinds ha hb hcompare hafter'
      · exact hkinds ha hb hcompare hafter

end TypedClient.Types
