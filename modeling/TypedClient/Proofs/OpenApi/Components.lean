import Mathlib.Logic.Relation
import TypedClient.Proofs.Dictionaries
import TypedClient.Proofs.OpenApi.MergeOrder
import TypedClient.Proofs.OpenApi.Visits

/-!
# The nodes of named schemas

* `Mentions` says that a reference occurs in the named schemas, and `Names` that it leads to one of
  them; these decide whether the named schemas can be mapped (`mapComponents_ok`,
  `mapComponents_error`);
* `Schema.Enters` says which schemas inside of a schema take part in its shape, and `Schema.Operand`
  which of these the shape refers to; every schema that takes part has a node
  (`InForce.exists_nodeOf`), which refers to the nodes of its operands (`OwnShaped.refersTo`);
* `Mapped` is what is known of the nodes when the named schemas have been mapped, and `Leads.kept`
  says that nothing that is mapped later changes them;
* `mapComponents_mapped` puts these together, and `not_referred_to_books` shows references that are
  no edges.
-/

set_option autoImplicit false

namespace TypedClient.OpenApi

open Relation TypedClient.Types

variable {schemas : Dict Schema} {reference : String} {b c d : Building} {s t u : Schema}
  {name : String} {id : TypeId}

/-! ## References -/

/-- The schema directly inside of another one. -/
inductive Schema.Holds (s : Schema) : Schema → Prop
  /-- A property. -/
  | property {entry : String × Schema} (h : entry ∈ s.properties) : Holds s entry.2
  /-- The items of a list. -/
  | item {u : Schema} (h : s.items = some u) : Holds s u
  /-- The values of further members. -/
  | value {u : Schema} (h : s.additional = some (.described u)) : Holds s u
  /-- An alternative. -/
  | alternative {u : Schema} (h : u ∈ s.alternatives) : Holds s u
  /-- A schema that is merged. -/
  | part {u : Schema} (h : u ∈ s.parts) : Holds s u

/-- What holds of a schema and of all schemas inside holds of everything inside, at any depth. -/
theorem Schema.all_iff_holds {p : Schema → Prop} :
    s.All p ↔ ∀ t, ReflTransGen Schema.Holds s t → p t := by
  constructor
  · intro h t hst
    induction hst using ReflTransGen.head_induction_on with
    | refl => exact h.here
    | head hst _ ih =>
      obtain ⟨_, hproperties, hitems, hadditional, halternatives, hparts⟩ := h
      cases hst with
      | property hentry => exact ih (hproperties _ hentry)
      | item hitem => exact ih (hitems _ hitem)
      | value hvalue => exact ih (hadditional _ hvalue)
      | alternative hchoice => exact ih (halternatives _ hchoice)
      | part hpart => exact ih (hparts _ hpart)
  · intro h
    induction Schema.all_of_forall (p := fun _ => True) (fun _ => trivial) s with
    | @intro s _ _ _ _ _ _ ihproperties ihitems ihadditional ihalternatives ihparts =>
      have hinside {u : Schema} (hu : s.Holds u) (t : Schema) (ht : ReflTransGen Schema.Holds u t) :
          p t := h t (.head hu ht)
      exact .intro (h s .refl)
        (fun entry hentry => ihproperties entry hentry (hinside (.property hentry)))
        (fun item hitem => ihitems item hitem (hinside (.item hitem)))
        (fun value hvalue => ihadditional value hvalue (hinside (.value hvalue)))
        (fun choice hchoice => ihalternatives choice hchoice (hinside (.alternative hchoice)))
        fun part hpart => ihparts part hpart (hinside (.part hpart))

/-- The reference occurs in one of the named schemas. -/
def Mentions (schemas : Dict Schema) (reference : String) : Prop :=
  ∃ name s t, Dict.get? schemas name = some s ∧ ReflTransGen Schema.Holds s t ∧
    t.keywords.reference = some reference

/-- The reference leads to one of the named schemas. -/
def Names (schemas : Dict Schema) (reference : String) : Prop :=
  ∃ name s, referredName? .schemas reference = some name ∧ Dict.get? schemas name = some s

/-- What is asked of all schemas is asked of the references that occur. -/
theorem allResolved_iff {fails : GenerationError → Prop} :
    AllResolved schemas fails ↔ ∀ reference, Mentions schemas reference →
      Names schemas reference ∨ fails (.unresolvedReference reference) := by
  have hnames (reference : String) : (∃ name, referredName? .schemas reference = some name ∧
      Dict.contains schemas name = true) ↔ Names schemas reference := by
    simp only [Names, Dict.contains, Option.isSome_iff_exists, exists_and_left]
  simp only [AllResolved, Schema.all_iff_holds, HeadResolved, Resolved, hnames]
  constructor
  · rintro h reference ⟨name, s, t, hs, ht, href⟩
    exact h name s hs t ht reference href
  · exact fun h name s hs t ht reference href => h reference ⟨name, s, t, hs, ht, href⟩

/-- The named schemas can be mapped if every reference leads to one of them. -/
theorem mapComponents_ok (h : ∀ reference, Mentions schemas reference → Names schemas reference) :
    ∃ c, mapComponents schemas Building.empty = .ok ((), c) := by
  have hall : AllResolved schemas fun _ => False :=
    allResolved_iff.2 fun reference hmentions => .inl (h reference hmentions)
  obtain ⟨_, c, hc, -⟩ := (mapComponents_goes hall (consistent_empty schemas)).exists_ok
  exact ⟨c, hc⟩

/-- If they cannot, a reference that leads to none of them is reported. -/
theorem mapComponents_error {e : GenerationError}
    (h : mapComponents schemas Building.empty = .error e) :
    ∃ reference, e = .unresolvedReference reference ∧ Mentions schemas reference ∧
      ¬Names schemas reference := by
  have hall : AllResolved schemas fun e => ∃ reference, e = .unresolvedReference reference ∧
      Mentions schemas reference ∧ ¬Names schemas reference := by
    refine allResolved_iff.2 fun reference hmentions => ?_
    by_cases hnames : Names schemas reference
    · exact .inl hnames
    · exact .inr ⟨reference, rfl, hmentions, hnames⟩
  have hends := mapComponents_goes hall (consistent_empty schemas)
  rw [Goes, h] at hends
  exact hends

/-! ## Schemas that take part -/

/-- The schema has the type, which decides on its shape as no other keyword does. -/
structure Schema.Typed (s : Schema) (type : String) : Prop where
  /-- There are no alternatives. -/
  alternatives : s.alternatives = []
  /-- There is no constant. -/
  constant : s.keywords.constant = none
  /-- There is no enumeration. -/
  values : s.keywords.values = []
  /-- The type is one of the types. -/
  type : type ∈ typeNames s

/-- The schema inside is one that the shape of the schema refers to. -/
inductive Schema.Operand (s : Schema) : Schema → Prop
  /-- An alternative. -/
  | alternative {u : Schema} (h : u ∈ s.alternatives) : Operand s u
  /-- The items of a list. -/
  | item {u : Schema} (htyped : s.Typed "array") (h : s.items = some u) : Operand s u
  /-- The values of an object all of whose members are alike. -/
  | value {u : Schema} (htyped : s.Typed "object") (hrecord : s.isRecord = true)
      (h : s.valueSchema = some u) : Operand s u
  /-- A property of an object. -/
  | property {entry : String × Schema} (htyped : s.Typed "object") (hrecord : s.isRecord = false)
      (h : entry ∈ s.properties) : Operand s entry.2

/-- The schema inside takes part in the shape of the schema: it is referred to, or merged. -/
inductive Schema.Enters (s : Schema) : Schema → Prop
  /-- It is referred to. -/
  | operand {u : Schema} (href : s.keywords.reference = none) (hparts : s.parts = [])
      (h : s.Operand u) : Enters s u
  /-- It is merged. -/
  | merged {u : Schema} (href : s.keywords.reference = none) (hparts : s.parts ≠ [])
      (h : u ∈ s.merged) : Enters s u

/-- The schema takes part in the shape of a named schema, at any depth. -/
def InForce (schemas : Dict Schema) (t : Schema) : Prop :=
  ∃ name s, Dict.get? schemas name = some s ∧ ReflTransGen Schema.Enters s t

/-! ## Edges -/

/-- The node itself or, where it is a choice, a member that has no name. -/
inductive Variant (g : TypeGraph) (id : TypeId) : TypeId → Prop
  /-- The node itself. -/
  | self : Variant g id id
  /-- A member. -/
  | member {members : List TypeId} {near : TypeId} (hkind : g.kind id = .union members)
      (h : near ∈ members) (hname : g.nameOf near = none) : Variant g id near

/-- The node refers to the other, by itself or by a member that has no name. -/
def RefersTo (g : TypeGraph) (id target : TypeId) : Prop :=
  ∃ near, Variant g id near ∧ target ∈ (g.kind near).references

variable {g : TypeGraph} {R : Schema → TypeId → Prop} {holder target : TypeId}

/-- A reference has the node it leads to, or a union of that with null. -/
theorem Represents.leadsTo (hid : Represents c u id)
    (href : u.keywords.reference = some reference) :
    ∃ target, LeadsTo c reference target ∧ WithNull c.graph target u.keywords.nullable id := by
  cases hid.stands with
  | shape hnone =>
    rw [href] at hnone
    cases hnone
  | @reference _ inner _ href' hinner hnull =>
    rw [href, Option.some.injEq] at href'
    subst href'
    exact ⟨inner, hinner, hnull⟩

/-- The node of a type that decides is the node of the schema, or one of its members. -/
theorem OwnShaped.exists_named {type : String} (hkind : OwnShaped R g s (g.kind holder))
    (htyped : s.Typed type) :
    ∃ near, Variant g holder near ∧ NameShaped R g s type (g.kind near) := by
  generalize hholder : g.kind holder = kind at hkind
  cases hkind with
  | alternatives hne => exact absurd htyped.alternatives hne
  | constant _ hconstant =>
    rw [htyped.constant] at hconstant
    cases hconstant
  | values _ _ hne => exact absurd htyped.values hne
  | names _ _ _ hnames =>
    have htype := htyped.type
    generalize typeNames s = names at hnames htype
    cases hnames with
    | unknown => cases htype
    | single hname =>
      rw [List.mem_singleton.1 htype]
      exact ⟨holder, .self, by rwa [hholder]⟩
    | several _ hids =>
      obtain ⟨id, hid, kind, hanonymous, hname⟩ := exists_of_mem_left hids htype
      exact ⟨id, .member hholder hid hanonymous.nameOf, by rwa [hanonymous.kind]⟩

/-- A list refers to its items. -/
theorem NameShaped.refersTo_item {near : TypeId} (hname : NameShaped R g s "array" (g.kind near))
    (hitem : s.items = some u) : ∃ id, R u id ∧ id ∈ (g.kind near).references := by
  generalize htype : "array" = type at hname
  generalize g.kind near = kind at hname ⊢
  cases hname with
  | array hplaced =>
    rw [hitem] at hplaced
    cases hplaced with
    | some hid => exact ⟨_, hid, List.mem_cons_self⟩
  | scalar harray => exact absurd htype.symm harray
  | _ => exact absurd htype (by decide)

/-- An object whose members are alike refers to their values. -/
theorem NameShaped.refersTo_value {near : TypeId} (hname : NameShaped R g s "object" (g.kind near))
    (hrecord : s.isRecord = true) (hvalue : s.valueSchema = some u) :
    ∃ id, R u id ∧ id ∈ (g.kind near).references := by
  generalize htype : "object" = type at hname
  generalize g.kind near = kind at hname ⊢
  cases hname with
  | record _ hplaced =>
    rw [hvalue] at hplaced
    cases hplaced with
    | some hid => exact ⟨_, hid, List.mem_cons_self⟩
  | object hnot =>
    rw [hrecord] at hnot
    cases hnot
  | scalar _ hobject => exact absurd htype.symm hobject
  | array => exact absurd htype (by decide)

/-- Any other object refers to its properties. -/
theorem NameShaped.refersTo_property {near : TypeId} {entry : String × Schema}
    (hname : NameShaped R g s "object" (g.kind near)) (hrecord : s.isRecord = false)
    (hentry : entry ∈ s.properties) : ∃ id, R entry.2 id ∧ id ∈ (g.kind near).references := by
  generalize htype : "object" = type at hname
  generalize g.kind near = kind at hname ⊢
  cases hname with
  | record hyes =>
    rw [hrecord] at hyes
    cases hyes
  | object _ hids =>
    obtain ⟨field, hfield, -, hid⟩ := exists_of_mem_left (forall₂_fieldsFor hids) hentry
    exact ⟨field.type, hid, List.mem_map_of_mem hfield⟩
  | scalar _ hobject => exact absurd htype.symm hobject
  | array => exact absurd htype (by decide)

/-- Alternatives are referred to. -/
theorem OwnShaped.refersTo_alternative (hkind : OwnShaped R g s (g.kind holder))
    (hmem : u ∈ s.alternatives) : ∃ id, R u id ∧ id ∈ (g.kind holder).references := by
  generalize g.kind holder = kind at hkind ⊢
  cases hkind with
  | alternatives _ hids =>
    obtain ⟨id, hid, hR⟩ := exists_of_mem_left hids hmem
    exact ⟨id, hR, hid⟩
  | constant hnil | values hnil | names hnil =>
    rw [hnil] at hmem
    cases hmem

/-- The node of a schema refers to the nodes of its operands. -/
theorem OwnShaped.refersTo (hkind : OwnShaped R g s (g.kind holder)) (hu : s.Operand u) :
    ∃ id, R u id ∧ RefersTo g holder id := by
  cases hu with
  | alternative hmem =>
    obtain ⟨id, hid, hmem⟩ := hkind.refersTo_alternative hmem
    exact ⟨id, hid, holder, .self, hmem⟩
  | item htyped hitem =>
    obtain ⟨near, hnear, hname⟩ := hkind.exists_named htyped
    obtain ⟨id, hid, hmem⟩ := hname.refersTo_item hitem
    exact ⟨id, hid, near, hnear, hmem⟩
  | value htyped hrecord hvalue =>
    obtain ⟨near, hnear, hname⟩ := hkind.exists_named htyped
    obtain ⟨id, hid, hmem⟩ := hname.refersTo_value hrecord hvalue
    exact ⟨id, hid, near, hnear, hmem⟩
  | property htyped hrecord hentry =>
    obtain ⟨near, hnear, hname⟩ := hkind.exists_named htyped
    obtain ⟨id, hid, hmem⟩ := hname.refersTo_property hrecord hentry
    exact ⟨id, hid, near, hnear, hmem⟩

/-! ## Nodes of schemas that take part -/

/-- A named schema has a node of its shape. -/
theorem exists_nodeOf_named (hc : Consistent schemas [] c) (hs : Dict.get? schemas name = some s)
    (hid : Dict.get? c.placed name = some id) : ∃ holder, NodeOf schemas c s holder := by
  have hfills := hc.filled name id s hid List.not_mem_nil hs
  generalize hkind : c.graph.kind id = kind at hfills
  cases hfills with
  | plain hnullable => exact ⟨id, .named hs hid hnullable⟩
  | @nullable _ inner _ hnullable => exact ⟨inner, .nullable hs hid hnullable hkind⟩

/-- So has any other schema that has a node and is no reference. -/
theorem Represents.exists_nodeOf (hid : Represents c t id) (href : t.keywords.reference = none) :
    ∃ holder, NodeOf schemas c t holder := by
  cases hid.stands with
  | reference href' =>
    rw [href] at href'
    cases href'
  | @shape _ inner _ _ _ _ hnull => exact ⟨inner, .inside hid hnull⟩

/-- The shape is that of the schema's own keywords if there is nothing to merge. -/
theorem NodeOf.ownShaped (hholder : NodeOf schemas c t holder) (hc : Consistent schemas [] c)
    (href : t.keywords.reference = none) (hparts : t.parts = []) :
    OwnShaped (Represents c) c.graph t (c.graph.kind holder) := by
  have hshaped := hholder.shaped hc href
  generalize c.graph.kind holder = kind at hshaped ⊢
  cases hshaped with
  | reference href' =>
    rw [href] at href'
    cases href'
  | merged _ hne => exact absurd hparts hne
  | own _ _ hown => exact hown

/-- A schema that is merged has a node. -/
theorem NodeOf.exists_merged (hholder : NodeOf schemas c t holder) (hc : Consistent schemas [] c)
    (href : t.keywords.reference = none) (hparts : t.parts ≠ []) (hu : u ∈ t.merged) :
    ∃ id, Represents c u id := by
  have hshaped := hholder.shaped hc href
  generalize c.graph.kind holder = kind at hshaped
  cases hshaped with
  | reference href' =>
    rw [href] at href'
    cases href'
  | merged _ _ _ _ _ hids =>
    obtain ⟨id, -, hid⟩ := exists_of_mem_left hids hu
    exact ⟨id, hid⟩
  | own _ hnil => exact absurd hnil hparts

/-- One step further inside, by cases on how a schema takes part. -/
theorem NodeOf.exists_represents (hholder : NodeOf schemas c t holder)
    (hc : Consistent schemas [] c) (hu : t.Enters u) : ∃ id, Represents c u id := by
  cases hu with
  | operand href hparts hoperand =>
    obtain ⟨id, hid, -⟩ := (hholder.ownShaped hc href hparts).refersTo hoperand
    exact ⟨id, hid⟩
  | merged href hparts hmem => exact hholder.exists_merged hc href hparts hmem

theorem Schema.Enters.reference_eq_none (hu : t.Enters u) : t.keywords.reference = none := by
  cases hu with
  | operand href => exact href
  | merged href => exact href

/-- Every schema that takes part and is no reference has a node, by induction on how deep it is. -/
theorem InForce.exists_nodeOf (ht : InForce schemas t) (hc : Consistent schemas [] c)
    (hplaced : ∀ name ∈ Dict.keys schemas, Dict.contains c.placed name = true)
    (href : t.keywords.reference = none) : ∃ holder, NodeOf schemas c t holder := by
  obtain ⟨name, s, hs, hst⟩ := ht
  induction hst with
  | refl =>
    have hkey : name ∈ Dict.keys schemas := List.mem_map_of_mem (Dict.mem_of_get? hs)
    obtain ⟨id, hid⟩ := Option.isSome_iff_exists.1 (hplaced name hkey)
    exact exists_nodeOf_named hc hs hid
  | tail _ hentered ih =>
    -- nothing takes part inside of a reference
    obtain ⟨holder, hholder⟩ := ih hentered.reference_eq_none
    obtain ⟨id, hid⟩ := hholder.exists_represents hc hentered
    exact hid.exists_nodeOf href

/-! ## The graph of the named schemas -/

/-- What is known of the nodes when the named schemas have been mapped. -/
structure Mapped (schemas : Dict Schema) (c : Building) : Prop where
  /-- Each named schema has a node that has a name, and the shape of the schema. -/
  node : ∀ name s, Dict.get? schemas name = some s →
    ∃ id text, Dict.get? c.placed name = some id ∧ c.graph.nameOf id = some text ∧
      Fills c s (c.graph.kind id)
  /-- Each node that has a name is that of a named schema. -/
  covered : ∀ id text, c.graph.nameOf id = some text →
    ∃ name s, Dict.get? schemas name = some s ∧ Dict.get? c.placed name = some id
  /-- No two named schemas share a node. -/
  injective : ∀ name other id, Dict.get? c.placed name = some id →
    Dict.get? c.placed other = some id → name = other
  /-- No two nodes share a name. -/
  distinct : ∀ id other text, c.graph.nameOf id = some text → c.graph.nameOf other = some text →
    id = other
  /-- The node of a named schema that is a reference refers to the node it leads to. -/
  followed : ∀ name s id reference, Dict.get? schemas name = some s →
    Dict.get? c.placed name = some id → s.keywords.reference = some reference →
      ∃ target, LeadsTo c reference target ∧ RefersTo c.graph id target
  /-- Any other schema that takes part has a node. -/
  placed : ∀ t, InForce schemas t → t.keywords.reference = none →
    ∃ holder, NodeOf schemas c t holder
  /-- The node has the shape of the schema, so that what it merges are the nodes of what the schema
  merges. -/
  shaped : ∀ t holder, NodeOf schemas c t holder → t.keywords.reference = none →
    Shaped (Represents c) c t (c.graph.kind holder)
  /-- If nothing is merged, the node refers to the nodes that references among the operands lead to,
  or to unions of these with null. -/
  edge : ∀ t u holder reference, NodeOf schemas c t holder → t.keywords.reference = none →
    t.parts = [] → t.Operand u → u.keywords.reference = some reference →
      ∃ target near, LeadsTo c reference target ∧
        WithNull c.graph target u.keywords.nullable near ∧ RefersTo c.graph holder near

/-- The node of a named schema that is a reference. -/
theorem Fills.refersTo (hfills : Fills c s (c.graph.kind id))
    (href : s.keywords.reference = some reference) :
    ∃ target, LeadsTo c reference target ∧ RefersTo c.graph id target := by
  have hshape {kind : TypeKind} (hkind : Shaped (Represents c) c s kind) :
      ∃ target, kind = .union [target] ∧ LeadsTo c reference target := by
    cases hkind with
    | reference href' htarget =>
      rw [href, Option.some.injEq] at href'
      subst href'
      exact ⟨_, rfl, htarget⟩
    | merged hnone | own hnone =>
      rw [href] at hnone
      cases hnone
  generalize hid : c.graph.kind id = kind at hfills
  cases hfills with
  | plain _ hkind =>
    obtain ⟨target, rfl, htarget⟩ := hshape hkind
    refine ⟨target, htarget, id, .self, ?_⟩
    rw [hid]
    exact List.mem_cons_self
  | @nullable _ inner _ _ hkind hinner =>
    obtain ⟨target, rfl, htarget⟩ := hshape hkind
    refine ⟨target, htarget, inner, .member hid List.mem_cons_self hinner.nameOf, ?_⟩
    rw [hinner.kind]
    exact List.mem_cons_self

/-- Between two schemas, when all named schemas have nodes, the nodes are as told. -/
theorem mapped_of_consistent (hc : Consistent schemas [] c)
    (hplaced : ∀ name ∈ Dict.keys schemas, Dict.contains c.placed name = true) :
    Mapped schemas c where
  node name s hs := by
    have hkey : name ∈ Dict.keys schemas := List.mem_map_of_mem (Dict.mem_of_get? hs)
    obtain ⟨id, hid⟩ := Option.isSome_iff_exists.1 (hplaced name hkey)
    obtain ⟨text, htext⟩ := hc.named name id hid
    exact ⟨id, text, hid, htext, hc.filled name id s hid List.not_mem_nil hs⟩
  covered id text htext := by
    obtain ⟨name, hid⟩ := hc.covered id text htext
    obtain ⟨s, hs⟩ := hc.known name id hid
    exact ⟨name, s, hs, hid⟩
  injective := hc.injective
  distinct id other text hid hother := by
    have hsound := hc.grown.toSound
    have hlookup := hsound.lookup_of_nameOf (TypeGraph.lt_of_nameOf hid) hid
    rw [hsound.lookup_of_nameOf (TypeGraph.lt_of_nameOf hother) hother] at hlookup
    exact (Option.some.inj hlookup).symm
  followed name s id reference hs hid href :=
    (hc.filled name id s hid List.not_mem_nil hs).refersTo href
  placed t ht href := ht.exists_nodeOf hc hplaced href
  shaped t holder hholder href := hholder.shaped hc href
  edge t u holder reference hholder href hparts hu hreference := by
    obtain ⟨near, hnear, hrefers⟩ := (hholder.ownShaped hc href hparts).refersTo hu
    obtain ⟨target, htarget, hnull⟩ := hnear.leadsTo hreference
    exact ⟨target, near, htarget, hnull, hrefers⟩

/-! ## Mapping more -/

/-- When all named schemas have nodes, no more names are given. -/
theorem Advances.lookup_eq (hcd : Advances schemas [] c d) (hc : Consistent schemas [] c)
    (hplaced : ∀ name ∈ Dict.keys schemas, Dict.contains c.placed name = true) (text : String) :
    d.graph.lookup text = c.graph.lookup text := by
  have hsound := hc.grown.toSound
  have hsound' := hcd.consistent.grown.toSound
  refine Option.ext fun id => ⟨fun hlookup => ?_, fun hlookup => ?_⟩
  -- a node with a name belongs to a named schema, and that had its node before
  · obtain ⟨name, hid⟩ := hcd.consistent.covered id text (hsound'.nameOf_of_lookup hlookup)
    obtain ⟨s, hs⟩ := hcd.consistent.known name id hid
    have hkey : name ∈ Dict.keys schemas := List.mem_map_of_mem (Dict.mem_of_get? hs)
    obtain ⟨old, hold⟩ := Option.isSome_iff_exists.1 (hplaced name hkey)
    obtain rfl : old = id := Option.some.inj ((hcd.placed name old hold).symm.trans hid)
    have hlt := hc.placedNodes name old hold
    refine hsound.lookup_of_nameOf hlt ?_
    rw [← hcd.extended.nameOf_eq hlt, hsound'.nameOf_of_lookup hlookup]
  · have hlt := hsound.lt_of_lookup hlookup
    refine hsound'.lookup_of_nameOf (hcd.extended.lt hlt) ?_
    rw [hcd.extended.nameOf_eq hlt, hsound.nameOf_of_lookup hlookup]

/-- Whatever is mapped later, all nodes stay as they are, and so do the names. -/
theorem Leads.kept (hcd : Leads schemas c d) (hc : Consistent schemas [] c)
    (hplaced : ∀ name ∈ Dict.keys schemas, Dict.contains c.placed name = true) :
    c.graph.Extends d.graph ∧ d.graph.names = c.graph.names := by
  have hadvances := hcd.advances hc
  refine ⟨hadvances.extended, ?_⟩
  exact Dict.ext_of_get? hadvances.consistent.grown.ordered hc.grown.ordered
    (hadvances.lookup_eq hc hplaced)

/-- **What becomes of the named schemas**, however they refer to one another.

Mapping them ends: visits of schemas are no more levels deep than there are schemas.  It ends well
if all references in them name one of them, and otherwise only with a reference in them that does
not.  The nodes with names are then theirs, one for each, with the shape of its schema and a name of
its own; references are edges to these nodes where they stand for a named schema, an alternative,
the items of a list, a property or the values of further members, and what a schema merges are the
nodes of what it names.  Whatever is mapped later changes neither nodes nor names. -/
theorem mapComponents_mapped (schemas : Dict Schema) :
    (∀ (visit : String → Build TypeId) (levels : Nat), schemas.length < levels →
      (Dict.keys schemas).forM (fun name => discard ((visitComponent schemas)^[levels] visit name))
        = mapComponents schemas) ∧
      ((∀ reference, Mentions schemas reference → Names schemas reference) →
        ∃ c, mapComponents schemas Building.empty = .ok ((), c)) ∧
      (∀ e, mapComponents schemas Building.empty = .error e →
        ∃ reference, e = .unresolvedReference reference ∧ Mentions schemas reference ∧
          ¬Names schemas reference) ∧
      ∀ c, mapComponents schemas Building.empty = .ok ((), c) →
        Mapped schemas c ∧
          ∀ d, Leads schemas c d → c.graph.Extends d.graph ∧ d.graph.names = c.graph.names := by
  refine ⟨fun visit levels => mapComponents_eq_visits schemas visit, mapComponents_ok,
    fun e => mapComponents_error, fun c hc => ?_⟩
  have hgoes := mapComponents_goes allResolved_of_true (consistent_empty schemas)
  obtain ⟨hadvances, hplaced⟩ := Ends.of_ok hgoes hc
  exact ⟨mapped_of_consistent hadvances.consistent hplaced,
    fun d hcd => hcd.kept hadvances.consistent hplaced⟩

/-- Leaves that are nowhere. -/
def leafless : Dict Schema :=
  [("Tree", .ofKeywords { reference := some "#/components/schemas/Leaf" })]

/-- Trees in trees are mapped, and a text after them; without their leaves they are not. -/
theorem mapComponents_mapped_trees :
    (trees.length < 2 ∧
      (Dict.keys trees).forM (fun name =>
          discard ((visitComponent trees)^[2] (fun name => throw (.unresolvedReference name)) name))
        = mapComponents trees) ∧
      ((∀ reference, Mentions trees reference → Names trees reference) ∧
        ∃ c, mapComponents trees Building.empty = .ok ((), c)) ∧
      (mapComponents leafless Building.empty
          = .error (.unresolvedReference "#/components/schemas/Leaf") ∧
        ∃ reference, GenerationError.unresolvedReference "#/components/schemas/Leaf"
            = .unresolvedReference reference ∧
          Mentions leafless reference ∧ ¬Names leafless reference) ∧
      mapComponents trees Building.empty = .ok ((), treesMapped) ∧ Mapped trees treesMapped ∧
        ∃ d, mapSchema trees (.ofKeywords { types := some ["string"] }) treesMapped = .ok (4, d) ∧
          treesMapped.graph.Extends d.graph ∧ d.graph.names = treesMapped.graph.names := by
  have hnames : ∀ reference, Mentions trees reference → Names trees reference := fun reference h =>
    (allResolved_iff.1 allResolved_trees reference h).resolve_right id
  have hleafless : mapComponents leafless Building.empty
      = .error (.unresolvedReference "#/components/schemas/Leaf") := rfl
  obtain ⟨hvisits, hok, -, hmapped⟩ := mapComponents_mapped trees
  obtain ⟨htrees, hkept⟩ := hmapped treesMapped mapComponents_trees
  refine ⟨⟨by decide, hvisits _ 2 (by decide)⟩, ⟨hnames, hok hnames⟩,
    ⟨hleafless, (mapComponents_mapped leafless).2.2.1 _ hleafless⟩, mapComponents_trees, htrees, ?_⟩
  obtain ⟨d, hd⟩ : ∃ d, mapSchema trees (.ofKeywords { types := some ["string"] }) treesMapped
      = .ok (4, d) := ⟨_, rfl⟩
  exact ⟨d, hd, hkept d (.schema .refl hd)⟩

/-- A novel is a book and nothing else. -/
def novel : Schema :=
  { Schema.ofKeywords
    { } with parts := [.ofKeywords { reference := some "#/components/schemas/Book" }] }

/-- A text, of which it is also said what its items are. -/
def title : Schema :=
  { Schema.ofKeywords { types := some ["string"] } with
    items := some (.ofKeywords { reference := some "#/components/schemas/Novel" }) }

/-- Books have titles. -/
def book : Schema :=
  { Schema.ofKeywords { types := some ["object"] } with properties := [("title", title)] }

/-- Books and novels. -/
def books : Dict Schema := [("Book", book), ("Novel", novel)]

/-- The nodes when books have been mapped. -/
def bookMapped : Building where
  graph :=
    { nodes :=
      #[⟨some (Naming.freeName [] (Naming.typeName "Book")), .object [⟨"title", 1, false, none⟩],
          none⟩,
        ⟨none, .primitive .string, none⟩]
      names := [(Naming.freeName [] (Naming.typeName "Book"), 0)] }
  placed := [("Book", 0)]

/-- The name of the node of novels. -/
def novelName : String := bookMapped.graph.uniqueName (Naming.typeName "Novel")

/-- The nodes when novels have been mapped, too: they have the fields of books. -/
def booksMapped : Building where
  graph :=
    { nodes := bookMapped.graph.nodes.push
        ⟨some novelName, .object [⟨"title", 1, false, none⟩], none⟩
      names := Dict.insert bookMapped.graph.names novelName 2 }
  placed := [("Book", 0), ("Novel", 2)]

theorem discard_of_eq_ok {m : Build TypeId} (h : m b = .ok (id, c)) :
    discard m b = .ok ((), c) := by
  change (m b >>= fun result => Except.ok ((), result.2)) = _
  rw [h]
  rfl

theorem mapComponents_books : mapComponents books Building.empty = .ok ((), booksMapped) := by
  have hbook : component books 2 "Book" Building.empty = .ok (0, bookMapped) := rfl
  have hreserved : reserveComponent "Novel" bookMapped = .ok (2,
      ⟨⟨bookMapped.graph.nodes.push ⟨some novelName, .unknown, none⟩,
        Dict.insert bookMapped.graph.names novelName 2⟩, [("Book", 0), ("Novel", 2)]⟩) := by
    rw [reserveComponent_eq, withReserved,
      TypeGraph.reserve_of_lookup_none (Naming.lookup_uniqueName _ _)]
    rfl
  have hnovel : component books 2 "Novel" bookMapped = .ok (2, booksMapped) := by
    have hs : Dict.get? books "Novel" = some novel := rfl
    rw [component_succ, visitComponent, placedOr_of_none rfl, hs]
    exact bind_of_eq_ok hreserved
  have hmap : mapComponents books
      = (discard (component books 2 "Book") >>= fun _ =>
        discard (component books 2 "Novel") >>= fun _ => pure ()) := rfl
  rw [hmap, bind_of_eq_ok (discard_of_eq_ok hbook), bind_of_eq_ok (discard_of_eq_ok hnovel)]
  rfl

/-- What a schema merges gives its fields away, and texts have no items: references there are no
edges, and no node refers to the nodes of books and novels. -/
theorem not_referred_to_books :
    mapComponents books Building.empty = .ok ((), booksMapped) ∧
      (Mentions books "#/components/schemas/Book" ∧
        LeadsTo booksMapped "#/components/schemas/Book" 0) ∧
      (Mentions books "#/components/schemas/Novel" ∧
        LeadsTo booksMapped "#/components/schemas/Novel" 2) ∧
      (∀ id, 0 ∉ (booksMapped.graph.kind id).references ∧
        2 ∉ (booksMapped.graph.kind id).references) ∧
      ¬∀ (schemas : Dict Schema) (c : Building),
        mapComponents schemas Building.empty = .ok ((), c) →
        ∀ reference, Mentions schemas reference → ∀ target, LeadsTo c reference target →
          ∃ id, target ∈ (c.graph.kind id).references := by
  have hbook : Mentions books "#/components/schemas/Book" :=
    ⟨"Novel", novel, _, rfl, .single (.part List.mem_cons_self), rfl⟩
  have hnovel : Mentions books "#/components/schemas/Novel" := by
    have hentry : ("title", title) ∈ book.properties := List.mem_cons_self
    have htitle : book.Holds title := .property hentry
    exact ⟨"Book", book, _, rfl, .head htitle (.single (.item rfl)), rfl⟩
  have hbookNode : LeadsTo booksMapped "#/components/schemas/Book" 0 :=
    ⟨"Book", by decide +kernel, rfl⟩
  have hnovelNode : LeadsTo booksMapped "#/components/schemas/Novel" 2 :=
    ⟨"Novel", by decide +kernel, rfl⟩
  have hnone : ∀ id, 0 ∉ (booksMapped.graph.kind id).references ∧
      2 ∉ (booksMapped.graph.kind id).references := by
    intro id
    match id with
    | 0 | 2 => decide
    | 1 | _ + 3 => exact ⟨List.not_mem_nil, List.not_mem_nil⟩
  refine ⟨mapComponents_books, ⟨hbook, hbookNode⟩, ⟨hnovel, hnovelNode⟩, hnone, fun h => ?_⟩
  obtain ⟨id, hid⟩ := h books booksMapped mapComponents_books _ hbook 0 hbookNode
  exact (hnone id).1 hid

end TypedClient.OpenApi
