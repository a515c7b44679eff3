import TypedClient.Proofs.Declaration.Correspondence
import TypedClient.Proofs.Types.Unbounded

/-!
# Declarations among others

Some declarations that refer to no others mean the same wherever they stand: what is declared beside
them neither adds to their types nor takes anything away (`equivalent_excerpt`).

* `Holds` says that a graph holds what declarations leave behind;
* `Alike` says of nodes of two graphs that they stand for one expression, and `bisimulation_alike`
  that such nodes are bisimilar if both graphs hold the declarations of all names that are referred
  to.
-/

set_option autoImplicit false

namespace TypedClient.Declaration

open TypedClient.Types

variable {g h : TypeGraph} {known other : String → Prop} {ss : List Statement} {e : TypeExpr}
  {a b : TypeId} {whole : Bool}

/-! ## Names -/

theorem TypeExpr.WellFormed.mono (h : e.WellFormed known whole)
    (hknown : ∀ name, known name → other name) : e.WellFormed other whole := by
  induction h with
  | unknown => exact .unknown
  | primitive p => exact .primitive p
  | literal h => exact .literal h
  | name h hname => exact .name h (hknown _ hname)
  | array _ ih => exact .array ih
  | record _ ih => exact .record ih
  | object _ ih => exact .object ih
  | union hlength _ ih => exact .union hlength ih
  | group _ ih => exact .group ih

theorem Statement.WellFormed.mono {s : Statement} (h : s.WellFormed known)
    (hknown : ∀ name, known name → other name) : s.WellFormed other := by
  cases h with
  | interface hname h => exact .interface hname fun m hm => (h m hm).mono hknown
  | typeAlias hname h => exact .typeAlias hname (h.mono hknown)

theorem Statement.WellFormed.isTypeName {s : Statement} (h : s.WellFormed known) :
    IsTypeName s.name := by
  cases h with
  | interface hname => exact hname
  | typeAlias hname => exact hname

/-- An expression stands for a named node only if it is the name of that node. -/
theorem known_of_placed (hwf : e.WellFormed known whole) (hg : g.Sound) (hplaced : Placed g e a)
    {name : String} (hname : g.nameOf a = some name) : known name := by
  induction hplaced generalizing whole with
  | name hid =>
    cases hwf with
    | name _ hknown =>
      rw [hg.nameOf_of_lookup hid] at hname
      exact Option.some.inj hname ▸ hknown
  | unknown hid | primitive hid | literal hid | array hid | record hid | object hid
  | enumeration _ hid | union _ hid =>
    rw [hid.nameOf] at hname
    cases hname
  | group _ ih =>
    cases hwf with
    | group hwf => exact ih hwf hname

/-! ## Nodes that stand for one expression -/

/-- The graph is in order and holds what the declarations leave behind. -/
structure Holds (g : TypeGraph) (ss : List Statement) : Prop where
  /-- The graph is in order. -/
  grown : g.Grown
  /-- Every name is declared. -/
  defined : ∀ s ∈ ss, ∃ id target, Defined g s id target

/-- The nodes stand for one expression, which refers to no other than the known names. -/
def Alike (known : String → Prop) (g h : TypeGraph) (a b : TypeId) : Prop :=
  ∃ (e : TypeExpr) (whole : Bool), e.WellFormed known whole ∧ Placed g e a ∧ Placed h e b

/-- Fields that are made of one list of members. -/
theorem fieldsMatch_alike {members : List (Member TypeExpr)} {ids others : List TypeId}
    (hwf : ∀ m ∈ members, m.type.WellFormed known true)
    (hids : members.length = ids.length) (hothers : members.length = others.length)
    (hg : ∀ p ∈ members.zip ids, Placed g p.1.type p.2)
    (hh : ∀ p ∈ members.zip others, Placed h p.1.type p.2) :
    List.Forall₂ (FieldsMatch (Alike known g h)) (fieldsOf members ids)
      (fieldsOf members others) := by
  induction members generalizing ids others with
  | nil => exact .nil
  | cons m members ih =>
    match ids, others, hids, hothers with
    | id :: ids, other :: others, hids, hothers =>
      obtain ⟨hfirst, hrest⟩ := List.forall_mem_cons.1 hwf
      obtain ⟨hid, hg⟩ := List.forall_mem_cons.1 hg
      obtain ⟨hother, hh⟩ := List.forall_mem_cons.1 hh
      exact .cons ⟨rfl, rfl, m.type, true, hfirst, hid, hother⟩
        (ih hrest (Nat.succ.inj hids) (Nat.succ.inj hothers) hg hh)

/-- The members of unions that are made of one list of expressions. -/
theorem membersMatch_alike {es : List TypeExpr} {ids others : List TypeId}
    (hwf : ∀ e ∈ es, e.WellFormed known false)
    (hids : es.length = ids.length) (hothers : es.length = others.length)
    (hg : ∀ p ∈ es.zip ids, Placed g p.1 p.2) (hh : ∀ p ∈ es.zip others, Placed h p.1 p.2) :
    List.Forall₂ (Alike known g h) ids others := by
  induction es generalizing ids others with
  | nil =>
    rw [List.eq_nil_of_length_eq_zero hids.symm, List.eq_nil_of_length_eq_zero hothers.symm]
    exact .nil
  | cons e es ih =>
    match ids, others, hids, hothers with
    | id :: ids, other :: others, hids, hothers =>
      obtain ⟨hfirst, hrest⟩ := List.forall_mem_cons.1 hwf
      obtain ⟨hid, hg⟩ := List.forall_mem_cons.1 hg
      obtain ⟨hother, hh⟩ := List.forall_mem_cons.1 hh
      exact .cons ⟨e, false, hfirst, hid, hother⟩
        (ih hrest (Nat.succ.inj hids) (Nat.succ.inj hothers) hg hh)

/-- What nodes have in common that stand for one expression: the name, and the shape that a name
declared as them would be given. -/
structure AlikeNodes (known : String → Prop) (g h : TypeGraph) (a b : TypeId) : Prop where
  /-- They have the same name or both none. -/
  name : g.nameOf a = h.nameOf b
  /-- Their shapes match. -/
  kind : KindsMatch (Alike known g h) (declaredKind g a) (declaredKind h b)

theorem AlikeNodes.of_anonymous {k l : TypeKind} (ha : IsAnonymous g a k) (hb : IsAnonymous h b l)
    (hkl : KindsMatch (Alike known g h) k l) : AlikeNodes known g h a b := by
  refine ⟨ha.nameOf.trans hb.nameOf.symm, ?_⟩
  rw [declaredKind_of_isAnonymous ha, declaredKind_of_isAnonymous hb]
  exact hkl

/-- **Nodes that stand for one expression** have the same name and matching shapes. -/
theorem alikeNodes_of_placed (hg : g.Sound) (hh : h.Sound) (hwf : e.WellFormed known whole)
    (ha : Placed g e a) (hb : Placed h e b) : AlikeNodes known g h a b := by
  induction hwf with
  | unknown =>
    cases ha with
    | unknown ha => cases hb with
      | unknown hb => exact .of_anonymous ha hb .unknown
  | primitive p =>
    cases ha with
    | primitive ha => cases hb with
      | primitive hb => exact .of_anonymous ha hb (.primitive p)
  | literal =>
    cases ha with
    | literal ha => cases hb with
      | literal hb => exact .of_anonymous ha hb (.enumeration (Json.agreesItems_refl _))
  | @name whole name hname hknown =>
    have halike : Alike known g h a b := ⟨.name name, true, .name hname hknown, ha, hb⟩
    cases ha with
    | name ha => cases hb with
      | name hb =>
        have ha := hg.nameOf_of_lookup ha
        have hb := hh.nameOf_of_lookup hb
        refine ⟨ha.trans hb.symm, ?_⟩
        rw [declaredKind, declaredKind, ha, hb]
        exact .union (.cons halike .nil)
  | @array _ item h =>
    cases ha with
    | array ha hitem => cases hb with
      | array hb hother => exact .of_anonymous ha hb (.array ⟨item, false, h, hitem, hother⟩)
  | @record _ value h =>
    cases ha with
    | record ha hvalue => cases hb with
      | record hb hother => exact .of_anonymous ha hb (.map ⟨value, true, h, hvalue, hother⟩)
  | object h =>
    cases ha with
    | object ha hids hg => cases hb with
      | object hb hothers hh =>
        exact .of_anonymous ha hb (.object (fieldsMatch_alike h hids hothers hg hh))
  | union _ h =>
    cases ha with
    | enumeration hvalues ha => cases hb with
      | enumeration hothers hb =>
        cases hvalues.symm.trans hothers
        exact .of_anonymous ha hb (.enumeration (Json.agreesItems_refl _))
      | union hnone => cases hnone.symm.trans hvalues
    | union hnone ha hids hg => cases hb with
      | enumeration hvalues => cases hnone.symm.trans hvalues
      | union _ hb hothers hh =>
        exact .of_anonymous ha hb (.union (membersMatch_alike h hids hothers hg hh))
  | group _ ih =>
    cases ha with
    | group ha => cases hb with
      | group hb => exact ih ha hb

/-- **Standing for one expression is a bisimulation** between graphs that hold the declarations of
all known names. -/
theorem bisimulation_alike (hg : Holds g ss) (hh : Holds h ss)
    (hss : ∀ s ∈ ss, s.WellFormed known) (hknown : ∀ name, known name → ∃ s ∈ ss, s.name = name) :
    Bisimulation g h (Alike known g h) := by
  have hnodes {a b : TypeId} (hab : Alike known g h a b) : AlikeNodes known g h a b := by
    obtain ⟨e, whole, hwf, ha, hb⟩ := hab
    exact alikeNodes_of_placed hg.grown.toSound hh.grown.toSound hwf ha hb
  refine ⟨fun {a b} hab => ?_, fun hab => (hnodes hab).name, fun {a b} hab => ?_⟩
  · obtain ⟨e, whole, -, ha, hb⟩ := hab
    exact ⟨ha.lt hg.grown.toSound, hb.lt hh.grown.toSound⟩
  · have hmatch := hnodes hab
    cases hname : g.nameOf a with
    | none =>
      have hkind := hmatch.kind
      rwa [declaredKind, declaredKind, ← hmatch.name, hname] at hkind
    | some name =>
      -- The node has the shape of what its name is declared as, in either graph.
      obtain ⟨e, whole, hwf, ha, -⟩ := hab
      obtain ⟨s, hs, rfl⟩ := hknown name (known_of_placed hwf hg.grown.toSound ha hname)
      obtain ⟨id, target, hid⟩ := hg.defined s hs
      obtain ⟨id', target', hid'⟩ := hh.defined s hs
      have hsame : id = a := Option.some.inj (hid.lookup.symm.trans
        (hg.grown.lookup_of_nameOf (TypeGraph.lt_of_nameOf hname) hname))
      have hname' := hmatch.name.symm.trans hname
      have hsame' : id' = b := Option.some.inj (hid'.lookup.symm.trans
        (hh.grown.lookup_of_nameOf (TypeGraph.lt_of_nameOf hname') hname'))
      rw [← hsame, ← hsame', hid.kind, hid'.kind]
      have htarget : Alike known g h target target' :=
        ⟨s.type, true, (hss s hs).type, hid.placed, hid'.placed⟩
      exact (hnodes htarget).kind

/-! ## Excerpts -/

theorem holds_graphOf (hss : ∀ s ∈ ss, s.WellFormed known)
    (hnames : (ss.map Statement.name).Nodup) :
    Holds (graphOf ss) ss := by
  obtain ⟨hgrown, hdefined, -⟩ := graphOf_spec hss hnames
  exact ⟨hgrown, hdefined⟩

/-- **What else is declared does not matter**: declarations that refer to no others give their names
equivalent types among others of other names and alone. -/
theorem equivalent_excerpt {others : List Statement}
    (hss : ∀ s ∈ ss, s.WellFormed fun name => ∃ s ∈ ss, s.name = name)
    (hothers : ∀ s ∈ others, s.WellFormed fun _ => True)
    (hnames : ((ss ++ others).map Statement.name).Nodup) {s : Statement} (hs : s ∈ ss) :
    ∃ a b, (graphOf (ss ++ others)).lookup s.name = some a ∧ (graphOf ss).lookup s.name = some b ∧
      equivalent (graphOf (ss ++ others)) a (graphOf ss) b = true := by
  have hall : ∀ t ∈ ss ++ others, t.WellFormed fun _ => True :=
    List.forall_mem_append.2 ⟨fun t ht => (hss t ht).mono fun _ _ => trivial, hothers⟩
  have hnodup : (ss.map Statement.name).Nodup := by
    rw [List.map_append] at hnames
    exact (List.nodup_append.1 hnames).1
  have hboth := holds_graphOf hall hnames
  have hsome : Holds (graphOf (ss ++ others)) ss :=
    ⟨hboth.grown, fun t ht => hboth.defined t (List.mem_append_left _ ht)⟩
  have halone := holds_graphOf hss hnodup
  obtain ⟨a, _, ha⟩ := hsome.defined s hs
  obtain ⟨b, _, hb⟩ := halone.defined s hs
  have hbisimulation := bisimulation_alike hsome halone hss fun _ h => h
  refine ⟨a, b, ha.lookup, hb.lookup, hbisimulation.equivalent hsome.grown.references
    halone.grown.references hsome.grown.acyclic ?_⟩
  exact ⟨.name s.name, true, .name (hss s hs).isTypeName ⟨s, hs, rfl⟩, .name ha.lookup,
    .name hb.lookup⟩

end TypedClient.Declaration
