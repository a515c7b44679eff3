import Mathlib.Data.List.Basic
import TypedClient.Declaration.OfGraph
import TypedClient.Proofs.Declaration.Statements
import TypedClient.Proofs.Types.Equivalence

/-!
# The expressions of a graph

The expression for a node is made by a descent that ends at named nodes.  In a graph whose cycles
all pass through named nodes the descent ends by itself, and the expression for an anonymous node is
the expression for its shape (`expr_of_anonymous`).

* `faithful` is the style that writes types as they are;
* `Writable` is what a node needs for its expression to be well-formed: a name that can be read, and
  no choice among nothing;
* `fits_expr` and `wellFormed_statement` say that the expressions and the declarations of writable
  nodes are well-formed.
-/

set_option autoImplicit false

namespace TypedClient.Declaration

open TypedClient.Types

/-- The style that keeps apart what types keep apart: members may be missing that are not required,
and unions are written as such. -/
def faithful : Style := ⟨true, false⟩

variable {g : TypeGraph} {id : TypeId} {known : String → Prop}

/-! ## The descent -/

theorem membersOf_congr {style : Style} {f f' : TypeId → TypeExpr} {fields : List Field}
    (h : ∀ field ∈ fields, f field.type = f' field.type) :
    membersOf style f fields = membersOf style f' fields :=
  List.map_congr_left fun field hfield => by rw [h field hfield]

theorem mem_partsOf_union {style : Style} {members : List TypeId} {member : TypeId}
    (h : member ∈ members) : member ∈ partsOf g style (.union members) := by
  rw [partsOf]
  split
  · exact List.mem_append_left _ h
  · exact h

theorem mem_partsOf_shared {style : Style} {members : List TypeId} {shared : List Field}
    {field : Field} (hwidened : style.widened = true) (hmany : 1 < members.length)
    (hshared : sharedFields? (memberKinds g members) = some shared) (hfield : field ∈ shared) :
    field.type ∈ partsOf g style (.union members) := by
  rw [partsOf, hwidened, decide_eq_true hmany, hshared]
  exact List.mem_append_right _ (List.mem_map_of_mem hfield)

/-- What members have in common depends on the expressions for the types of the fields they
share. -/
theorem commonShape_congr {style : Style} {f f' : TypeId → TypeExpr} {members : List TypeId}
    (h : ∀ shared, sharedFields? (memberKinds g members) = some shared →
      ∀ field ∈ shared, f field.type = f' field.type) :
    commonShape g style f members = commonShape g style f' members := by
  rw [commonShape.eq_def, commonShape.eq_def]
  split
  · rfl
  · rename_i fields rest hkinds
    rw [hkinds] at h
    cases hshared : sharedFields? (.object fields :: rest) with
    | none => rfl
    | some shared => exact congrArg TypeExpr.object (membersOf_congr (h shared hshared))
  · rfl

/-- The expression for a shape depends on the expressions that it is made of. -/
theorem kindExpr_congr {style : Style} {f f' : TypeId → TypeExpr} {kind : TypeKind}
    (h : ∀ part ∈ partsOf g style kind, f part = f' part) :
    kindExpr g style f kind = kindExpr g style f' kind := by
  cases kind with
  | unknown | primitive | enumeration => rfl
  | object fields =>
    exact congrArg TypeExpr.object (membersOf_congr fun field hfield =>
      h field.type (List.mem_map_of_mem hfield))
  | map value => simp only [kindExpr, h _ (List.mem_singleton_self _)]
  | array item => simp only [kindExpr, h _ (List.mem_singleton_self _)]
  | union members =>
    have hall : ∀ member ∈ members, f member = f' member := fun member hmember =>
      h member (mem_partsOf_union hmember)
    have hsame : members.map f = members.map f' := List.map_congr_left hall
    rw [kindExpr, kindExpr]
    split
    · rename_i hwidened
      split
      · rename_i hmany
        have hcommon : commonShape g style f members = commonShape g style f' members :=
          commonShape_congr fun shared hshared field hfield =>
            h field.type (mem_partsOf_shared hwidened hmany hshared hfield)
        rw [widenedExpr, widenedExpr, hsame, hcommon]
      · rw [hsame]
    · congr 1
      refine List.map_congr_left fun member hmember => ?_
      rw [hall member hmember]

theorem expr?_of_named {style : Style} {name : String} (hname : g.nameOf id = some name) :
    style.expr? g id = some (.name name) := by
  rw [Style.expr?, hname]

theorem expr_of_named {style : Style} {name : String} (hname : g.nameOf id = some name) :
    expr g style id = .name name := by
  rw [expr, expr?_of_named hname, Option.getD_some]

theorem expr?_of_isSome {style : Style} (h : (style.expr? g id).isSome) :
    style.expr? g id = some (expr g style id) := by
  obtain ⟨e, he⟩ := Option.isSome_iff_exists.1 h
  rw [expr, he, Option.getD_some]

/-- The expression for an anonymous node is made of those for its parts, if these have one. -/
theorem expr?_of_anonymous {style : Style} (hnone : g.nameOf id = none)
    (hparts : ∀ part ∈ partsOf g style (g.kind id), (style.expr? g part).isSome) :
    style.expr? g id = some (kindExpr g style (expr g style) (g.kind id)) := by
  have hwalk : ((partsOf g style (g.kind id)).mapM fun part => do
      return (part, ← style.expr? g part)) =
        some ((partsOf g style (g.kind id)).map fun part => (part, expr g style part)) :=
    mapM_of_forall_eq_some fun part hpart => by rw [expr?_of_isSome (hparts part hpart)]; rfl
  rw [Style.expr?, hnone]
  dsimp only
  rw [hwalk]
  refine congrArg some (kindExpr_congr fun part hpart => ?_)
  rw [List.lookup_graph _ hpart, Option.getD_some]

/-- What holds of all nodes and their expressions: the descent for a node ends at a name, goes on
with the parts of a shape, or does not end at all. -/
theorem expr_all {style : Style} {P : TypeId → TypeExpr → Prop} (hunknown : ∀ id, P id .unknown)
    (hname : ∀ id name, g.nameOf id = some name → P id (.name name))
    (hkind : ∀ id f, g.nameOf id = none → (∀ part, P part (f part)) →
      P id (kindExpr g style f (g.kind id))) (id : TypeId) :
    P id (expr g style id) := by
  suffices hsome : ∀ e, style.expr? g id = some e → P id e by
    rw [expr]
    cases h : style.expr? g id with
    | none => exact hunknown id
    | some e => exact hsome e h
  -- The induction is on the descent that ends: the expressions of the parts have the property.
  refine Style.expr?.partial_correctness style g P ?_ id
  intro descend hdescend id e he
  split at he
  · rename_i name hnamed
    obtain rfl := Option.some.inj he
    exact hname id name hnamed
  · rename_i hnone
    obtain ⟨parts, hparts, he⟩ := Option.bind_eq_some_iff.1 he
    obtain rfl := Option.some.inj he
    refine hkind id _ hnone fun part => ?_
    cases hlookup : parts.lookup part with
    | none => exact hunknown part
    | some e =>
      obtain ⟨before, after, rfl, -⟩ := List.lookup_eq_some_iff.1 hlookup
      obtain ⟨other, -, hother⟩ := exists_of_mem_right (forall₂_of_mapM hparts)
        (List.mem_append_right _ List.mem_cons_self)
      obtain ⟨found, hfound, hpair⟩ := Option.bind_eq_some_iff.1 hother
      cases hpair
      exact hdescend _ _ hfound

/-- The nodes of a graph refer to nodes, and no cycle is anonymous. -/
structure Descends (g : TypeGraph) : Prop where
  /-- Nodes refer to nodes. -/
  references : ∀ id < g.size, ∀ child ∈ (g.kind id).references, child < g.size
  /-- Every cycle passes through a named node. -/
  acyclic : g.Acyclic

theorem Descends.depth (hg : Descends g) (hid : id < g.size) : g.DepthAtMost g.size id :=
  TypeGraph.depthAtMost_size hg.references hg.acyclic hid

/-- Written as it is, a shape is made of the nodes it refers to. -/
theorem partsOf_of_native {style : Style} (hnative : style.widened = false) (kind : TypeKind) :
    partsOf g style kind = kind.references := by
  cases kind with
  | union members => rw [partsOf, hnative]; rfl
  | _ => rfl

/-- A node has an expression if anonymous nodes do not follow each other for ever. -/
theorem isSome_expr?_of_depthAtMost {style : Style} (hnative : style.widened = false) {depth : Nat}
    (h : g.DepthAtMost depth id) : (style.expr? g id).isSome := by
  induction h with
  | named hname =>
    obtain ⟨name, hname⟩ := Option.ne_none_iff_exists'.1 hname
    rw [expr?_of_named hname]
    rfl
  | @anonymous _ id _ ih =>
    cases hname : g.nameOf id with
    | some name => rw [expr?_of_named hname]; rfl
    | none =>
      rw [expr?_of_anonymous hname fun part hpart => ?_]
      · rfl
      · rw [partsOf_of_native hnative] at hpart
        exact ih part hpart

theorem expr_of_anonymous (hg : Descends g) (hid : id < g.size) (hnone : g.nameOf id = none) :
    expr g faithful id = kindExpr g faithful (expr g faithful) (g.kind id) := by
  have hparts : ∀ part ∈ partsOf g faithful (g.kind id), (faithful.expr? g part).isSome := by
    intro part hpart
    rw [partsOf_of_native rfl] at hpart
    exact isSome_expr?_of_depthAtMost rfl (hg.depth (hg.references id hid part hpart))
  rw [expr, expr?_of_anonymous hnone hparts, Option.getD_some]

/-! ## Choices -/

/-- Whether the shape is a choice between several values or types, which is written with bars. -/
def isSeveral : TypeKind → Bool
  | .enumeration values => 1 < values.length
  | .union members => 1 < members.length
  | _ => false

theorem isChoice_eq (g : TypeGraph) (id : TypeId) :
    isChoice g id 1 1 = ((g.nameOf id).isNone && isSeveral (g.kind id)) := by
  rw [isChoice]
  cases g.kind id <;> rfl

/-- A member of a union, in parentheses where it needs them. -/
def asMember (g : TypeGraph) (id : TypeId) : TypeExpr :=
  if kindExpr.isEnumOrUnion g id then .group (expr g faithful id) else expr g faithful id

theorem kindExpr_union (members : List TypeId) :
    kindExpr g faithful (expr g faithful) (.union members)
      = oneOrUnion (members.map (asMember g)) := rfl

theorem isChoice_of_not_isEnumOrUnion (h : kindExpr.isEnumOrUnion g id = false) :
    isChoice g id 1 1 = false := by
  rw [isChoice_eq]
  rw [kindExpr.isEnumOrUnion] at h
  cases hname : (g.nameOf id).isNone with
  | false => rfl
  | true =>
    rw [hname, Bool.true_and] at h
    cases hkind : g.kind id <;> simp_all [isSeveral]

/-! ## Well-formed expressions -/

/-- A node whose expression can be read: it has a known name that names a type, or it has none and
is no choice among nothing. -/
structure Writable (known : String → Prop) (g : TypeGraph) (id : TypeId) : Prop where
  /-- The node exists. -/
  lt : id < g.size
  /-- Its name names a type. -/
  isTypeName : ∀ name, g.nameOf id = some name → IsTypeName name
  /-- Its name is known. -/
  known : ∀ name, g.nameOf id = some name → known name
  /-- Without a name it is no choice among nothing. -/
  offers : g.nameOf id = none → (g.kind id).Offers

/-- How the expression for a node may be used: it is a type, and unless it is a choice it may stand
between bars. -/
structure Fits (known : String → Prop) (several : Bool) (e : TypeExpr) : Prop where
  /-- It is a type. -/
  whole : e.WellFormed known true
  /-- It may stand between bars. -/
  member : several = false → e.WellFormed known false

theorem Fits.of_all {several : Bool} {e : TypeExpr} (h : ∀ whole, e.WellFormed known whole) :
    Fits known several e := ⟨h true, fun _ => h false⟩

theorem wellFormed_literalExpr (value : Json) (whole : Bool) :
    (literalExpr value).WellFormed known whole := by
  cases value with
  | array | object => exact .unknown
  | null => exact .primitive .null
  | bool b => exact .literal (.bool b)
  | number n => exact .literal (.number n)
  | string s => exact .literal (.string s)

theorem fits_oneOrUnion {members : List TypeExpr} (hne : members ≠ [])
    (h : ∀ e ∈ members, ∀ whole, e.WellFormed known whole) :
    Fits known (decide (1 < members.length)) (oneOrUnion members) := by
  match members, hne with
  | [single], _ => exact .of_all (h single List.mem_cons_self)
  | first :: second :: rest, _ =>
    refine ⟨.union (by simp) fun e he => h e he false, fun hseveral => ?_⟩
    simp at hseveral

/-- What fits may stand anywhere in parentheses, and without them if it is no choice. -/
theorem Fits.grouped {several : Bool} {e : TypeExpr} (h : Fits known several e) {grouped : Bool}
    (hgrouped : grouped = false → several = false) (whole : Bool) :
    (if grouped then TypeExpr.group e else e).WellFormed known whole := by
  cases grouped with
  | true => exact .group h.whole
  | false =>
    cases whole with
    | true => exact h.whole
    | false => exact h.member (hgrouped rfl)

/-- The expression for a shape whose children fit. -/
theorem fits_kindExpr {kind : TypeKind} (hoffers : kind.Offers)
    (h : ∀ child ∈ kind.references,
      Fits known (isChoice g child 1 1) (expr g faithful child)) :
    Fits known (isSeveral kind) (kindExpr g faithful (expr g faithful) kind) := by
  cases kind with
  | unknown => exact .of_all fun _ => .unknown
  | primitive p => exact .of_all fun _ => .primitive p
  | object fields =>
    refine .of_all fun _ => .object fun m hm => ?_
    obtain ⟨field, hfield, rfl⟩ := List.mem_map.1 hm
    exact (h _ (List.mem_map_of_mem hfield)).whole
  | map value => exact .of_all fun _ => .record (h value (List.mem_singleton_self _)).whole
  | array item =>
    exact .of_all fun _ => .array ((h item (List.mem_singleton_self _)).grouped id false)
  | enumeration values =>
    have hne : values.map literalExpr ≠ [] := by simpa [TypeKind.Offers] using hoffers
    have hall : ∀ e ∈ values.map literalExpr, ∀ whole, e.WellFormed known whole := by
      simp [wellFormed_literalExpr]
    have hfits := fits_oneOrUnion hne hall
    rwa [List.length_map] at hfits
  | union members =>
    rw [kindExpr_union]
    have hne : members.map (asMember g) ≠ [] := by simpa [TypeKind.Offers] using hoffers
    have hall : ∀ e ∈ members.map (asMember g), ∀ whole, e.WellFormed known whole := by
      intro e he whole
      obtain ⟨member, hmember, rfl⟩ := List.mem_map.1 he
      exact (h member hmember).grouped isChoice_of_not_isEnumOrUnion whole
    have hfits := fits_oneOrUnion hne hall
    rwa [List.length_map] at hfits

/-- A set of nodes that is closed under references. -/
def ReferencesStay (g : TypeGraph) (nodes : TypeId → Prop) : Prop :=
  ∀ id, nodes id → ∀ child ∈ (g.kind id).references, nodes child

variable {nodes : TypeId → Prop}

/-- The expressions for writable nodes that refer to each other only are well-formed. -/
theorem fits_expr (hg : Descends g) (hnodes : ∀ id, nodes id → Writable known g id)
    (hclosed : ReferencesStay g nodes) (hid : nodes id) :
    Fits known (isChoice g id 1 1) (expr g faithful id) := by
  have hdepth := hg.depth (hnodes id hid).lt
  generalize g.size = depth at hdepth
  induction hdepth with
  | @named _ id hname =>
    obtain ⟨name, hname⟩ := Option.ne_none_iff_exists'.1 hname
    have hwritable := hnodes id hid
    rw [expr_of_named hname]
    exact .of_all fun _ => .name (hwritable.isTypeName name hname) (hwritable.known name hname)
  | @anonymous _ id _ ih =>
    have hwritable := hnodes id hid
    cases hname : g.nameOf id with
    | some name =>
      rw [expr_of_named hname]
      exact .of_all fun _ => .name (hwritable.isTypeName name hname) (hwritable.known name hname)
    | none =>
      rw [expr_of_anonymous hg hwritable.lt hname, isChoice_eq, hname]
      exact fits_kindExpr (hwritable.offers hname) fun child hchild =>
        ih child hchild (hclosed id hid child hchild)

/-- The declaration of a writable node that is no choice among nothing is well-formed. -/
theorem wellFormed_statement (hg : Descends g) (hnodes : ∀ id, nodes id → Writable known g id)
    (hclosed : ReferencesStay g nodes) (hid : nodes id) (hoffers : (g.kind id).Offers)
    {s : Statement} (hs : statement? g faithful id = some s) : s.WellFormed known := by
  obtain ⟨name, hname, rfl⟩ := Option.map_eq_some_iff.1 hs
  have hwritable := hnodes id hid
  have htype := hwritable.isTypeName name hname
  have hfits := fits_kindExpr hoffers fun child hchild =>
    fits_expr hg hnodes hclosed (hclosed id hid child hchild)
  cases hkind : g.kind id with
  | object fields =>
    rw [hkind] at hfits
    have hobject := hfits.whole
    rw [kindExpr] at hobject
    cases hobject with
    | object hmembers => exact .interface htype hmembers
  | _ =>
    rw [hkind] at hfits
    exact .typeAlias htype hfits.whole

end TypedClient.Declaration
