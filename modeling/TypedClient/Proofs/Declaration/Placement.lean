import Mathlib.Data.List.Induction
import TypedClient.Proofs.Declaration.Building
import TypedClient.Proofs.Declaration.Statements

/-!
# Where declarations end up in a graph

`Placed g e id` says that the node `id` stands for the expression `e`: a named node for a name, and
else an anonymous node of the shape of `e`.  Placing an expression makes such a node, and what is
made later does not undo it.

* `place_spec` is the case of one expression, by induction on it;
* `Defined g s` says what a declaration leaves behind, and `graphOf_spec` that the graph of
  declarations of different names holds what each of them leaves behind, and no unknown names.
-/

set_option autoImplicit false

namespace TypedClient.Declaration

open TypedClient.Types

/-! ## Nodes that stand for expressions -/

/-- The fields for members whose types have been placed. -/
def fieldsOf (members : List (Member TypeExpr)) (ids : List TypeId) : List Field :=
  members.zipWith (fun m id => ⟨m.name, id, !m.optional, none⟩) ids

/-- The node stands for the expression. -/
inductive Placed (g : TypeGraph) : TypeExpr → TypeId → Prop
  /-- A name stands for the node of that name. -/
  | name {name : String} {id : TypeId} (h : g.lookup name = some id) : Placed g (.name name) id
  /-- Every value. -/
  | unknown {id : TypeId} (hid : IsAnonymous g id .unknown) : Placed g .unknown id
  /-- A scalar type. -/
  | primitive {p : Primitive} {id : TypeId} (hid : IsAnonymous g id (.primitive p)) :
      Placed g (.primitive p) id
  /-- A literal is an enumeration of one value. -/
  | literal {value : Json} {id : TypeId} (hid : IsAnonymous g id (.enumeration [value])) :
      Placed g (.literal value) id
  /-- Lists. -/
  | array {item : TypeExpr} {id child : TypeId} (hid : IsAnonymous g id (.array child))
      (h : Placed g item child) : Placed g (.array item) id
  /-- Objects with members of one type. -/
  | record {value : TypeExpr} {id child : TypeId} (hid : IsAnonymous g id (.map child))
      (h : Placed g value child) : Placed g (.record value) id
  /-- Objects with the given members. -/
  | object {members : List (Member TypeExpr)} {id : TypeId} {ids : List TypeId}
      (hid : IsAnonymous g id (.object (fieldsOf members ids)))
      (hlength : members.length = ids.length)
      (h : ∀ p ∈ members.zip ids, Placed g p.1.type p.2) : Placed g (.object members) id
  /-- A union of literals and null is an enumeration. -/
  | enumeration {members : List TypeExpr} {values : List Json} {id : TypeId}
      (hvalues : enumerationValues? members = some values)
      (hid : IsAnonymous g id (.enumeration values)) : Placed g (.union members) id
  /-- Any other union. -/
  | union {members : List TypeExpr} {id : TypeId} {ids : List TypeId}
      (hvalues : enumerationValues? members = none) (hid : IsAnonymous g id (.union ids))
      (hlength : members.length = ids.length)
      (h : ∀ p ∈ members.zip ids, Placed g p.1 p.2) : Placed g (.union members) id
  /-- Parentheses stand for what is in them. -/
  | group {inner : TypeExpr} {id : TypeId} (h : Placed g inner id) : Placed g (.group inner) id

/-- A later graph finds all names where they were and has all anonymous nodes as they were. -/
structure Keeps (g h : TypeGraph) : Prop where
  /-- Names are found where they were. -/
  lookup : ∀ {name id}, g.lookup name = some id → h.lookup name = some id
  /-- Anonymous nodes are as they were. -/
  anonymous : ∀ {id kind}, IsAnonymous g id kind → IsAnonymous h id kind

variable {g h k : TypeGraph} {e : TypeExpr} {id : TypeId}

theorem Keeps.trans (hgh : Keeps g h) (hhk : Keeps h k) : Keeps g k :=
  ⟨fun hid => hhk.lookup (hgh.lookup hid), fun hid => hhk.anonymous (hgh.anonymous hid)⟩

theorem Keeps.of_extends (hg : g.Sound) (hh : h.Sound) (hgh : g.Extends h) : Keeps g h := by
  refine ⟨fun hid => hgh.lookup hg hh hid, fun {id kind} hid => ⟨hgh.lt hid.lt, ?_, ?_⟩⟩
  · rw [hgh.nameOf_eq hid.lt, hid.nameOf]
  · rw [hgh.kind_eq hid.lt, hid.kind]

theorem Keeps.setKind (hname : g.nameOf id ≠ none) (kind : TypeKind) :
    Keeps g (g.setKind id kind) := by
  refine ⟨fun hid => hid, fun {other shape} hother => ⟨?_, ?_, ?_⟩⟩
  · rw [TypeGraph.size_setKind]
    exact hother.lt
  · rw [TypeGraph.nameOf_setKind, hother.nameOf]
  · have hne : other ≠ id := fun heq => hname (heq ▸ hother.nameOf)
    rw [TypeGraph.kind_setKind_of_ne g hne, hother.kind]

theorem Placed.mono (h' : Placed g e id) (hkeeps : Keeps g h) : Placed h e id := by
  induction h' with
  | name hid => exact .name (hkeeps.lookup hid)
  | unknown hid => exact .unknown (hkeeps.anonymous hid)
  | primitive hid => exact .primitive (hkeeps.anonymous hid)
  | literal hid => exact .literal (hkeeps.anonymous hid)
  | array hid _ ih => exact .array (hkeeps.anonymous hid) ih
  | record hid _ ih => exact .record (hkeeps.anonymous hid) ih
  | object hid hlength _ ih => exact .object (hkeeps.anonymous hid) hlength ih
  | enumeration hvalues hid => exact .enumeration hvalues (hkeeps.anonymous hid)
  | union hvalues hid hlength _ ih => exact .union hvalues (hkeeps.anonymous hid) hlength ih
  | group _ ih => exact .group ih

theorem Placed.lt (hg : g.Sound) (h : Placed g e id) : id < g.size := by
  induction h with
  | name hid => exact hg.lt_of_lookup hid
  | unknown hid | primitive hid | literal hid => exact hid.lt
  | array hid | record hid => exact hid.lt
  | object hid | enumeration _ hid | union _ hid => exact hid.lt
  | group _ ih => exact ih

/-! ## Placing an expression -/

/-- What placing leads to: a graph that has grown by nodes under known names. -/
structure Growth (known : String → Prop) (g h : TypeGraph) : Prop where
  /-- The graph is in order. -/
  grown : h.Grown
  /-- It has kept the nodes. -/
  extended : g.Extends h
  /-- New names are known. -/
  known : ∀ name id, h.lookup name = some id → g.lookup name = some id ∨ known name

variable {known : String → Prop}

theorem Growth.refl (hg : g.Grown) : Growth known g g := ⟨hg, .refl g, fun _ _ h => .inl h⟩

theorem Growth.trans (hgh : Growth known g h) (hhk : Growth known h k) : Growth known g k := by
  refine ⟨hhk.grown, hgh.extended.trans hhk.extended, fun name id hid => ?_⟩
  rcases hhk.known name id hid with hid | hknown
  · exact hgh.known name id hid
  · exact .inr hknown

theorem Growth.add (hgh : Growth known g h) {kind : TypeKind}
    (hkind : ∀ child ∈ kind.references, child < h.size) : Growth known g (h.add kind) :=
  hgh.trans ⟨hgh.grown.add hkind, TypeGraph.extends_add h kind, fun _ _ hid => .inl hid⟩

theorem Growth.reserve (hg : g.Grown) {name : String} (hname : known name) :
    Growth known g (g.reserve name).1 := by
  refine ⟨hg.reserve name, TypeGraph.extends_reserve g name, fun other id hid => ?_⟩
  by_cases hother : other = name
  · exact .inr (hother ▸ hname)
  · rw [TypeGraph.lookup_reserve_of_ne g hother] at hid
    exact .inl hid

theorem Growth.keeps (hgh : Growth known g h) (hg : g.Grown) : Keeps g h :=
  .of_extends hg.toSound hgh.grown.toSound hgh.extended

/-- Adding a node goes on a growth. -/
theorem Growth.addNode {kind : TypeKind} (hgh : Growth known g h)
    (hkind : ∀ child ∈ kind.references, child < h.size) :
    Growth known g (addNode h kind).1 ∧
      IsAnonymous (addNode h kind).1 (addNode h kind).2 kind ∧ Keeps h (addNode h kind).1 := by
  have hadd := hgh.grown.add hkind
  have hext := TypeGraph.extends_add h kind
  exact ⟨hgh.add hkind, TypeGraph.isAnonymous_add h kind,
    .of_extends hgh.grown.toSound hadd.toSound hext⟩

/-- Placing the expression makes a node for it. -/
def PlacesRight (known : String → Prop) (e : TypeExpr) : Prop :=
  ∀ g : TypeGraph, g.Grown → Growth known g (place g e).1 ∧ Placed (place g e).1 e (place g e).2

theorem placeAll_spec {es : List TypeExpr} (h : ∀ e ∈ es, PlacesRight known e) (g : TypeGraph)
    (hg : g.Grown) : Growth known g (placeAll g es).1 ∧ es.length = (placeAll g es).2.length ∧
      ∀ p ∈ es.zip (placeAll g es).2, Placed (placeAll g es).1 p.1 p.2 := by
  induction es generalizing g with
  | nil => exact ⟨.refl hg, rfl, by simp⟩
  | cons e es ih =>
    obtain ⟨hfirst, hplaced⟩ := h e List.mem_cons_self g hg
    obtain ⟨hrest, hlength, hall⟩ := ih (fun e he => h e (List.mem_cons_of_mem _ he))
      (place g e).1 hfirst.grown
    rw [placeAll]
    refine ⟨hfirst.trans hrest, congrArg (· + 1) hlength, ?_⟩
    exact List.forall_mem_cons.2 ⟨hplaced.mono (hrest.keeps hfirst.grown), hall⟩

theorem placeMembers_spec {members : List (Member TypeExpr)}
    (h : ∀ m ∈ members, PlacesRight known m.type) (g : TypeGraph) (hg : g.Grown) :
    Growth known g (placeMembers g members).1 ∧
      ∃ ids, (placeMembers g members).2 = fieldsOf members ids ∧ members.length = ids.length ∧
        ∀ p ∈ members.zip ids, Placed (placeMembers g members).1 p.1.type p.2 := by
  induction members generalizing g with
  | nil => exact ⟨.refl hg, [], rfl, rfl, by simp⟩
  | cons m members ih =>
    obtain ⟨hfirst, hplaced⟩ := h m List.mem_cons_self g hg
    obtain ⟨hrest, ids, hfields, hlength, hall⟩ :=
      ih (fun m hm => h m (List.mem_cons_of_mem _ hm)) (place g m.type).1 hfirst.grown
    rw [placeMembers]
    refine ⟨hfirst.trans hrest, (place g m.type).2 :: ids, ?_, congrArg (· + 1) hlength, ?_⟩
    · change (⟨m.name, _, !m.optional, none⟩ : Field) :: (placeMembers _ members).2 = _
      rw [hfields]
      rfl
    · exact List.forall_mem_cons.2 ⟨hplaced.mono (hrest.keeps hfirst.grown), hall⟩

/-- **An expression is placed**: the graph grows, and a node of it stands for the expression. -/
theorem place_spec {whole : Bool} (h : e.WellFormed known whole) : PlacesRight known e := by
  have leaf {e : TypeExpr} {kind : TypeKind} (hplace : ∀ g, place g e = addNode g kind)
      (hkind : kind.references = [])
      (hplaced : ∀ {g id}, IsAnonymous g id kind → Placed g e id) : PlacesRight known e := by
    intro g hg
    rw [hplace]
    exact ⟨(Growth.refl hg).add (by simp [hkind]), hplaced (TypeGraph.isAnonymous_add g kind)⟩
  induction h with
  | unknown => exact leaf (fun _ => rfl) rfl .unknown
  | primitive p => exact leaf (fun _ => rfl) rfl .primitive
  | literal => exact leaf (fun _ => rfl) rfl .literal
  | @name _ name hshaped hknown =>
    intro g hg
    exact ⟨.reserve hg hknown, .name (TypeGraph.lookup_reserve g name)⟩
  | @array _ item _ ih =>
    intro g hg
    obtain ⟨hgrowth, hplaced⟩ := ih g hg
    have hlt : ∀ child ∈ (TypeKind.array (place g item).2).references,
        child < (place g item).1.size :=
      (reached_place item hg).lt
    obtain ⟨hnew, hid, hkeeps⟩ := hgrowth.addNode hlt
    exact ⟨hnew, .array hid (hplaced.mono hkeeps)⟩
  | @record _ value _ ih =>
    intro g hg
    obtain ⟨hgrowth, hplaced⟩ := ih g hg
    have hlt : ∀ child ∈ (TypeKind.map (place g value).2).references,
        child < (place g value).1.size :=
      (reached_place value hg).lt
    obtain ⟨hnew, hid, hkeeps⟩ := hgrowth.addNode hlt
    exact ⟨hnew, .record hid (hplaced.mono hkeeps)⟩
  | @object _ members _ ih =>
    intro g hg
    obtain ⟨hgrowth, ids, hfields, hlength, hall⟩ := placeMembers_spec ih g hg
    have hlt : ∀ child ∈ (TypeKind.object (placeMembers g members).2).references,
        child < (placeMembers g members).1.size := (reached_placeMembers members hg).lt
    obtain ⟨hnew, hid, hkeeps⟩ := hgrowth.addNode hlt
    have hplace : place g (.object members)
        = addNode (placeMembers g members).1 (.object (placeMembers g members).2) := by rw [place]
    rw [hplace]
    rw [hfields] at hnew hid hkeeps ⊢
    exact ⟨hnew, .object hid hlength fun p hp => (hall p hp).mono hkeeps⟩
  | @union members _ _ ih =>
    intro g hg
    rw [place]
    cases hvalues : enumerationValues? members with
    | some values =>
      have hlt : ∀ child ∈ (TypeKind.enumeration values).references, child < g.size := by
        simp [TypeKind.references]
      obtain ⟨hnew, hid, -⟩ := (Growth.refl hg).addNode hlt
      exact ⟨hnew, .enumeration hvalues hid⟩
    | none =>
      obtain ⟨hgrowth, hlength, hall⟩ := placeAll_spec ih g hg
      have hlt : ∀ child ∈ (TypeKind.union (placeAll g members).2).references,
          child < (placeAll g members).1.size := (reached_placeAll members hg).lt
      obtain ⟨hnew, hid, hkeeps⟩ := hgrowth.addNode hlt
      exact ⟨hnew, .union hvalues hid hlength fun p hp => (hall p hp).mono hkeeps⟩
  | group _ ih =>
    intro g hg
    obtain ⟨hgrowth, hplaced⟩ := ih g hg
    exact ⟨hgrowth, .group hplaced⟩

/-! ## Declarations -/

/-- The node of the declared name has the shape of what it is declared as. -/
structure Defined (g : TypeGraph) (s : Statement) (id target : TypeId) : Prop where
  /-- The name is that of a node. -/
  lookup : g.lookup s.name = some id
  /-- A node stands for the type. -/
  placed : Placed g s.type target
  /-- The shape is that of the node. -/
  kind : g.kind id = declaredKind g target

theorem Statement.WellFormed.type {s : Statement} (h : s.WellFormed known) :
    s.type.WellFormed known true := by
  cases h with
  | interface _ h => exact .object h
  | typeAlias _ h => exact h

theorem declaredKind_eq {target : TypeId} (hname : h.nameOf target = g.nameOf target)
    (hkind : g.nameOf target = none → h.kind target = g.kind target) :
    declaredKind h target = declaredKind g target := by
  rw [declaredKind, declaredKind, hname]
  cases hnone : g.nameOf target with
  | some name => rfl
  | none => exact hkind hnone

/-- What a declaration leaves behind, in a graph that is in order: the declared name is defined,
other names stay defined, and new names are known or the declared name. -/
structure DefinesRight (known : String → Prop) (g : TypeGraph) (s : Statement) : Prop where
  /-- The graph is in order. -/
  grown : (define g s).Grown
  /-- The name is declared. -/
  defined : ∃ id target, Defined (define g s) s id target
  /-- Other names stay declared. -/
  kept : ∀ {t id target}, t.name ≠ s.name → Defined g t id target → Defined (define g s) t id target
  /-- There are no unknown names. -/
  names : ∀ name id, (define g s).lookup name = some id →
    (∃ id, g.lookup name = some id) ∨ name = s.name ∨ known name

theorem define_spec {s : Statement} (h : s.WellFormed known) (g : TypeGraph) (hg : g.Grown) :
    DefinesRight known g s := by
  have hdefine := define_eq g s
  have hreserved := hg.reserve s.name
  have hlookup := TypeGraph.lookup_reserve g s.name
  obtain ⟨hgrowth, hplaced⟩ := place_spec h.type (g.reserve s.name).1 hreserved
  have hextends := (TypeGraph.extends_reserve g s.name).trans hgrowth.extended
  generalize (g.reserve s.name).2 = id at hdefine hlookup
  generalize (place (g.reserve s.name).1 s.type).2 = target at hdefine hplaced
  generalize (place (g.reserve s.name).1 s.type).1 = last at hdefine hgrowth hplaced hextends
  have hlast := hgrowth.grown
  have hid : last.lookup s.name = some id := (hgrowth.keeps hreserved).lookup hlookup
  have hname := hlast.nameOf_of_lookup hid
  have hnamed : last.nameOf id ≠ none := by rw [hname]; exact Option.some_ne_none _
  have hkeeps : Keeps last (define g s) := hdefine ▸ Keeps.setKind hnamed _
  have hnameOf (other : TypeId) : (define g s).nameOf other = last.nameOf other := by
    rw [hdefine, TypeGraph.nameOf_setKind]
  have hkind {other : TypeId} (hne : other ≠ id) : (define g s).kind other = last.kind other := by
    rw [hdefine, TypeGraph.kind_setKind_of_ne last hne]
  have hanonymous {other : TypeId} (hnone : last.nameOf other = none) :
      (define g s).kind other = last.kind other := hkind fun heq => hnamed (heq ▸ hnone)
  refine ⟨grown_define hg s, ⟨id, target, hkeeps.lookup hid, hplaced.mono hkeeps, ?_⟩,
    fun {t other aim} hne ht => ⟨?_, ?_, ?_⟩, fun name other hother => ?_⟩
  · rw [declaredKind_eq (hnameOf target) hanonymous, hdefine,
      TypeGraph.kind_setKind_self (hlast.lt_of_lookup hid)]
  · exact hkeeps.lookup (hextends.lookup hg.toSound hlast.toSound ht.lookup)
  · exact ht.placed.mono ((Keeps.of_extends hg.toSound hlast.toSound hextends).trans hkeeps)
  · have hlt := hg.lt_of_lookup ht.lookup
    have haim := ht.placed.lt hg.toSound
    have hother : other ≠ id := by
      rintro rfl
      have hsame := hextends.nameOf_eq hlt
      rw [hname, hg.nameOf_of_lookup ht.lookup] at hsame
      exact hne (Option.some.inj hsame).symm
    rw [hkind hother, hextends.kind_eq hlt, ht.kind]
    refine (declaredKind_eq ?_ fun hnone => ?_).symm
    · rw [hnameOf, hextends.nameOf_eq haim]
    · rw [← hextends.nameOf_eq haim] at hnone
      rw [hanonymous hnone, hextends.kind_eq haim]
  · rw [hdefine, TypeGraph.lookup_setKind] at hother
    rcases hgrowth.known name other hother with hother | hknown
    · by_cases heq : name = s.name
      · exact .inr (.inl heq)
      · rw [TypeGraph.lookup_reserve_of_ne g heq] at hother
        exact .inl ⟨other, hother⟩
    · exact .inr (.inr hknown)

/-- **The graph of declarations of different names** holds what each of them leaves behind. -/
theorem graphOf_spec {statements : List Statement} (h : ∀ s ∈ statements, s.WellFormed known)
    (hnames : (statements.map Statement.name).Nodup) :
    (graphOf statements).Grown ∧
      (∀ s ∈ statements, ∃ id target, Defined (graphOf statements) s id target) ∧
      ∀ name id, (graphOf statements).lookup name = some id →
        (∃ s ∈ statements, s.name = name) ∨ known name := by
  induction statements using List.reverseRecOn with
  | nil => exact ⟨.empty, by simp, fun name id hid => nomatch hid⟩
  | append_singleton statements s ih =>
    rw [List.map_append, List.map_singleton] at hnames
    obtain ⟨hnodup, -, hdisjoint⟩ := List.nodup_append.1 hnames
    obtain ⟨hgrown, hdefined, hknown⟩ := ih (fun t ht => h t (List.mem_append_left _ ht)) hnodup
    have hstep := define_spec (h s (by simp)) (graphOf statements) hgrown
    have hgraph : graphOf (statements ++ [s]) = define (graphOf statements) s := by
      rw [graphOf, List.foldl_append]
      rfl
    rw [hgraph]
    refine ⟨hstep.grown, fun t ht => ?_, fun name id hid => ?_⟩
    · rcases List.mem_append.1 ht with ht | ht
      · obtain ⟨id, target, hid⟩ := hdefined t ht
        have hne := hdisjoint _ (List.mem_map_of_mem ht) _ (List.mem_singleton_self s.name)
        exact ⟨id, target, hstep.kept hne hid⟩
      · rw [List.mem_singleton.1 ht]
        exact hstep.defined
    · rcases hstep.names name id hid with ⟨id, hid⟩ | rfl | hname
      · rcases hknown name id hid with ⟨t, ht, hname⟩ | hname
        · exact .inl ⟨t, List.mem_append_left _ ht, hname⟩
        · exact .inr hname
      · exact .inl ⟨s, by simp, rfl⟩
      · exact .inr hname

end TypedClient.Declaration
