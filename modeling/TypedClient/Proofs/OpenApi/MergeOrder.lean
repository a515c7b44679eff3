import TypedClient.Proofs.OpenApi.Mapping

/-!
# What a merged object has

A schema that merges others is mapped while named schemas further out still wait for their shape.  A
part that stands for one of those shows no fields yet, and the merged object does not get them
later.

* `Complete` says that an object has all the fields of the parts, as these look in the end, and the
  properties of the schema itself;
* `onTime` are the nodes that had a shape when they were merged; the fields of these are what the
  object is made of (`declaredFields_onTime`);
* `mergedComplete_iff_supplied` says when the object is complete: just if the nodes that were on
  time supply every name with the type that it has in the end;
* `mapSchema_mergedComplete` says that schemas outside of the named ones have all their fields.
-/

set_option autoImplicit false

namespace TypedClient.OpenApi

open TypedClient.Types

/-! ## Complete objects -/

/-- The last property of the name. -/
def Schema.lastProperty (s : Schema) (name : String) : Option Schema :=
  (s.properties.reverse.find? (·.1 == name)).map Prod.snd

/-- The fields are those of the nodes, the last of each name, and the properties of the schema. -/
structure Complete (b : Building) (s : Schema) (members : List TypeId) (fields : List Field) :
    Prop where
  /-- Each name is there once. -/
  nodup : (fields.map Field.name).Nodup
  /-- What a member declares is there, as the last member has it. -/
  inherited : ∀ name type, s.lastProperty name = none →
    lastType (declaredFields b.graph members).flatten name = some type →
      ∃ field ∈ fields, field.name = name ∧ field.type = type
  /-- The properties of the schema are there. -/
  own : ∀ name property, s.lastProperty name = some property →
    ∃ field ∈ fields, field.name = name ∧ Represents b property field.type

/-- The shape is an object that has all the fields. -/
def MergedComplete (b : Building) (s : Schema) (members : List TypeId) (kind : TypeKind) : Prop :=
  ∃ fields, kind = .object fields ∧ Complete b s members fields

/-- The node that has the shape of a schema, null left aside. -/
inductive NodeOf (schemas : Dict Schema) (b : Building) (s : Schema) : TypeId → Prop
  /-- The node of a named schema. -/
  | named {name : String} {id : TypeId} (hs : Dict.get? schemas name = some s)
      (hid : Dict.get? b.placed name = some id) (hnullable : s.keywords.nullable = false) :
      NodeOf schemas b s id
  /-- The node inside that of a named schema with null. -/
  | nullable {name : String} {id inner null : TypeId} (hs : Dict.get? schemas name = some s)
      (hid : Dict.get? b.placed name = some id) (hnullable : s.keywords.nullable = true)
      (hkind : b.graph.kind id = .union [inner, null]) : NodeOf schemas b s inner
  /-- The node of any other schema. -/
  | inside {id inner : TypeId} (hid : Represents b s id)
      (hnull : WithNull b.graph inner s.keywords.nullable id) : NodeOf schemas b s inner

/-- The keywords of the schema, references and merging left aside, say that values are objects. -/
structure Schema.SaysObject (s : Schema) : Prop where
  /-- There are no alternatives. -/
  alternatives : s.alternatives = []
  /-- There is no constant. -/
  constant : s.keywords.constant = none
  /-- There is no enumeration. -/
  values : s.keywords.values = []
  /-- The only type is that of objects. -/
  names : typeNames s = ["object"]

variable {schemas : Dict Schema} {b d : Building} {s : Schema} {g h : TypeGraph} {id : TypeId}
  {kind : TypeKind} {name : String}

/-! ## The node of a schema -/

/-- Beside null there is one node. -/
theorem WithNull.unique {inner other : TypeId} {nullable : Bool}
    (hid : WithNull g inner nullable id) (hother : WithNull g other nullable id) :
    inner = other := by
  cases hid with
  | plain =>
    cases hother
    rfl
  | null hnull =>
    cases hother with
    | null => rfl
    | union _ hid =>
      rw [hid.kind] at hnull
      cases hnull
  | union _ hid =>
    cases hother with
    | null hnull =>
      rw [hid.kind] at hnull
      cases hnull
    | union _ hid' =>
      have hkinds := hid.kind.symm.trans hid'.kind
      rw [TypeKind.union.injEq, List.cons.injEq] at hkinds
      exact hkinds.1

/-- The shape of the node is right for the schema. -/
theorem NodeOf.shaped (hnode : NodeOf schemas d s id) (hd : Consistent schemas [] d)
    (href : s.keywords.reference = none) : Shaped (Represents d) d s (d.graph.kind id) := by
  cases hnode with
  | @named name _ hs hid hnullable =>
    have hfills := hd.filled name id s hid List.not_mem_nil hs
    generalize d.graph.kind id = kind at hfills ⊢
    cases hfills with
    | plain _ hkind => exact hkind
    | nullable hnullable' =>
      rw [hnullable] at hnullable'
      cases hnullable'
  | @nullable name outer _ _ hs hid hnullable hkind =>
    have hfills := hd.filled name outer s hid List.not_mem_nil hs
    rw [hkind] at hfills
    cases hfills with
    | plain hnullable' =>
      rw [hnullable] at hnullable'
      cases hnullable'
    | nullable _ hshape hinner =>
      rw [hinner.kind]
      exact hshape
  | inside hid hnull =>
    cases hid.stands with
    | reference href' =>
      rw [href] at href'
      cases href'
    | shape _ hinner hkind hnull' =>
      rw [hnull.unique hnull', hinner.kind]
      exact hkind

/-! ## Nodes that are on time -/

/-- The nodes that had a shape in the graph. -/
def onTime (g : TypeGraph) (ids : List TypeId) : List TypeId :=
  ids.filter fun id =>
    match aliasedKind g id g.size with
    | .unknown => false
    | _ => true

/-- The fields that were there when nodes were merged are those of the nodes that were on time, as
these look in the end. -/
theorem declaredFields_onTime (hg : g.Sound) (hgh : g.Grows h) {ids : List TypeId}
    (hids : ∀ id ∈ ids, id < g.size) :
    declaredFields h (onTime g ids) = declaredFields g ids := by
  induction ids with
  | nil => rfl
  | cons id ids ih =>
    rw [List.forall_mem_cons] at hids
    have hrest := ih hids.2
    rw [declaredFields, onTime] at hrest ⊢
    rw [declaredFields] at hrest ⊢
    rw [List.filter_cons, List.filterMap_cons]
    by_cases hunknown : aliasedKind g id g.size = .unknown
    · rw [hunknown]
      exact hrest
    · have hkept := aliasedKind_of_grows hg hgh hids.1 hgh.size_le hunknown
      rw [if_pos, List.filterMap_cons, hkept, hrest]
      split
      · contradiction
      · rfl

/-- A node that was not on time is an alias of a named node that was waiting for its shape. -/
theorem exists_waiting (hg : g.Sound) (hgh : g.Grows h) (hid : id < g.size)
    (hlate : aliasedKind g id g.size = .unknown) (hknown : aliasedKind h id h.size ≠ .unknown) :
    ∃ n, g.nameOf (g.resolveWithin id n) ≠ none ∧ g.kind (g.resolveWithin id n) = .unknown ∧
      h.kind (g.resolveWithin id n) ≠ .unknown := by
  by_contra hnone
  push Not at hnone
  have hkinds : ∀ n, h.kind (g.resolveWithin id n) = g.kind (g.resolveWithin id n) := by
    intro n
    have hlt := hg.resolveWithin_lt hid n
    by_cases hname : g.nameOf (g.resolveWithin id n) = none
    · exact hgh.kind_eq _ hlt (.inl hname)
    · by_cases hunknown : g.kind (g.resolveWithin id n) = .unknown
      · rw [hnone n hname hunknown, hunknown]
      · exact hgh.kind_eq _ hlt (.inr hunknown)
  rw [aliasedKind_congr hkinds] at hknown
  exact aliasedKind_size_ne_unknown hg hid hknown hlate

/-! ## The properties of the schema itself -/

theorem lastType_append (fields others : List Field) (name : String) :
    lastType (fields ++ others) name = (lastType others name).or (lastType fields name) := by
  rw [lastType, lastType, lastType, List.reverse_append, List.find?_append, Option.map_or]

/-- Lists side by side find partners. -/
theorem find?_fieldsFor {R : Schema → TypeId → Prop} {properties : List (String × Schema)}
    {fields : List Field}
    (h : List.Forall₂ (fun entry field => field.name = entry.1 ∧ R entry.2 field.type) properties
      fields) (name : String) :
    (∀ entry, properties.find? (·.1 == name) = some entry →
        ∃ field, fields.find? (·.name == name) = some field ∧ R entry.2 field.type) ∧
      (properties.find? (·.1 == name) = none → fields.find? (·.name == name) = none) := by
  induction h with
  | nil => exact ⟨fun _ h => (nomatch h), fun _ => rfl⟩
  | @cons entry field properties fields hfirst _ ih =>
    rw [List.find?_cons, List.find?_cons, hfirst.1]
    by_cases hname : entry.1 = name
    · rw [beq_iff_eq.2 hname]
      refine ⟨fun entry hentry => ?_, fun h => nomatch h⟩
      cases hentry
      exact ⟨field, rfl, hfirst.2⟩
    · rw [beq_eq_false_iff_ne.2 hname]
      exact ih

theorem forall₂_fieldsFor {R : Schema → TypeId → Prop} {required : List String}
    {properties : List (String × Schema)} {ids : List TypeId}
    (h : List.Forall₂ (fun entry id => R entry.2 id) properties ids) :
    List.Forall₂ (fun entry field => field.name = entry.1 ∧ R entry.2 field.type) properties
      (fieldsFor required properties ids) := by
  induction h with
  | nil => exact .nil
  | cons hid _ ih => exact .cons ⟨rfl, hid⟩ ih

/-- The last field of a name is that of the last property. -/
theorem lastType_fieldsFor {R : Schema → TypeId → Prop} {required : List String} {ids : List TypeId}
    (h : List.Forall₂ (fun entry id => R entry.2 id) s.properties ids) (name : String) :
    (∀ property, s.lastProperty name = some property →
        ∃ type, lastType (fieldsFor required s.properties ids) name = some type ∧
          R property type) ∧
      (s.lastProperty name = none →
        lastType (fieldsFor required s.properties ids) name = none) := by
  have hfields : List.Forall₂ (fun entry field => field.name = entry.1 ∧ R entry.2 field.type)
      s.properties.reverse (fieldsFor required s.properties ids).reverse :=
    List.forall₂_reverse_iff.2 (forall₂_fieldsFor h)
  obtain ⟨hsome, hnone⟩ := find?_fieldsFor hfields name
  constructor
  · intro property hproperty
    obtain ⟨entry, hentry, rfl⟩ := Option.map_eq_some_iff.1 hproperty
    obtain ⟨field, hfield, hid⟩ := hsome entry hentry
    exact ⟨field.type, by rw [lastType, hfield]; rfl, hid⟩
  · intro hproperty
    rw [lastType, hnone (Option.map_eq_none_iff.1 hproperty)]
    rfl

/-- Where the keywords say that values are objects, the properties make one. -/
theorem OwnShaped.eq_object {R : Schema → TypeId → Prop} (hkind : OwnShaped R g s kind)
    (hobject : s.SaysObject) (hproperties : s.properties ≠ []) :
    ∃ ids, kind = .object (fieldsFor s.keywords.required s.properties ids) ∧
      List.Forall₂ (fun entry id => R entry.2 id) s.properties ids := by
  cases hkind with
  | alternatives halternatives => exact absurd hobject.alternatives halternatives
  | constant _ hconstant =>
    rw [hobject.constant] at hconstant
    cases hconstant
  | values _ _ hvalues => exact absurd hobject.values hvalues
  | names _ _ _ hnames =>
    rw [hobject.names] at hnames
    generalize hnamesEq : ["object"] = names at hnames
    cases hnames with
    | unknown => cases hnamesEq
    | several hlength =>
      rw [← hnamesEq] at hlength
      exact absurd hlength (by decide)
    | @single name _ hname =>
      rw [List.cons.injEq] at hnamesEq
      obtain ⟨hnameEq, -⟩ := hnamesEq
      cases hname with
      | array => exact absurd hnameEq (by decide)
      | record hrecord =>
        rw [Schema.isRecord] at hrecord
        split at hrecord
        · rename_i hnone _
          exact absurd hnone hproperties
        · rename_i hnone _
          exact absurd hnone hproperties
        · cases hrecord
      | object _ hids => exact ⟨_, rfl, hids⟩
      | scalar _ hother => exact absurd hnameEq.symm hother

/-- The node of the schema without merging is an object with the properties. -/
theorem Represents.alone_eq_object (hid : Represents b s.alone id)
    (href : s.keywords.reference = none) (hobject : s.SaysObject)
    (hproperties : s.properties ≠ []) :
    ∃ ids, IsAnonymous b.graph id (.object (fieldsFor s.keywords.required s.properties ids)) ∧
      List.Forall₂ (fun entry id => Represents b entry.2 id) s.properties ids := by
  cases hid.stands with
  | reference href' =>
    have href'' : s.keywords.reference = some _ := href'
    rw [href] at href''
    cases href''
  | shape _ hinner hkind hnull =>
    cases hnull
    cases hkind with
    | reference href' =>
      have href'' : s.keywords.reference = some _ := href'
      rw [href] at href''
      cases href''
    | merged _ hparts => exact absurd rfl hparts
    | own _ _ hkind =>
      have halone : s.alone.SaysObject :=
        ⟨hobject.alternatives, hobject.constant, hobject.values, hobject.names⟩
      obtain ⟨ids, rfl, hids⟩ := hkind.eq_object halone hproperties
      exact ⟨ids, hinner, hids⟩

/-! ## When a merged object is complete -/

/-- Nodes supply all that an object has to have. -/
structure Supplied (b : Building) (s : Schema) (members supply : List TypeId) : Prop where
  /-- One of them is an object. -/
  object : declaredFields b.graph supply ≠ []
  /-- What a member declares they declare, last with the type of the last member. -/
  inherited : ∀ name type, s.lastProperty name = none →
    lastType (declaredFields b.graph members).flatten name = some type →
      lastType (declaredFields b.graph supply).flatten name = some type
  /-- They have the properties of the schema, if its other keywords do not say that values are
  objects. -/
  own : s.SaysObject ∨ ∀ name property, s.lastProperty name = some property →
    ∃ type, lastType (declaredFields b.graph supply).flatten name = some type ∧
      Represents b property type

/-- How the shape of a node was merged: in which graph, from which nodes for the parts and from
which for the properties of the schema itself. -/
structure MergedFrom (b : Building) (s : Schema) (kind : TypeKind) (g : TypeGraph)
    (members own : List TypeId) : Prop where
  /-- The graph was in order. -/
  sound : g.Sound
  /-- It has grown since. -/
  grows : g.Grows b.graph
  /-- The nodes were there. -/
  lt : ∀ id ∈ members ++ own, id < g.size
  /-- There is a node for each part. -/
  parts : List.Forall₂ (Represents b) s.parts members
  /-- There is a node for the properties, if there are any. -/
  properties : List.Forall₂ (Represents b) (if s.properties.isEmpty then [] else [s.alone]) own
  /-- The shape is what these were merged to. -/
  kind_eq : kind = mergedKind g (members ++ own)

/-- The nodes are those for the parts, and then that for the properties. -/
theorem mergedFrom_of_forall₂ {ids : List TypeId} (hg : g.Sound) (hgrows : g.Grows b.graph)
    (hlt : ∀ id ∈ ids, id < g.size) (hids : List.Forall₂ (Represents b) s.merged ids) :
    ∃ members own, MergedFrom b s (mergedKind g ids) g members own := by
  rw [Schema.merged] at hids
  have hsplit := List.take_append_drop s.parts.length ids
  refine ⟨ids.take s.parts.length, ids.drop s.parts.length, ?_⟩
  refine ⟨hg, hgrows, by rwa [hsplit], ?_, ?_, by rw [hsplit]⟩
  · exact (List.forall₂_take_append ids s.parts _ hids.flip).flip
  · exact (List.forall₂_drop_append ids s.parts _ hids.flip).flip

theorem exists_mergedFrom (hkind : Shaped (Represents b) b s kind)
    (href : s.keywords.reference = none) (hparts : s.parts ≠ []) :
    ∃ g members own, MergedFrom b s kind g members own := by
  cases hkind with
  | reference href' =>
    rw [href] at href'
    cases href'
  | own _ hparts' => exact absurd hparts' hparts
  | @merged g ids _ _ hg hgrows hlt hids => exact ⟨g, mergedFrom_of_forall₂ hg hgrows hlt hids⟩

variable {members own : List TypeId}

theorem MergedFrom.declaredFields_eq (hm : MergedFrom b s kind g members own) :
    declaredFields g (members ++ own) = declaredFields b.graph (onTime g (members ++ own)) :=
  (declaredFields_onTime hm.sound hm.grows hm.lt).symm

/-- Where the keywords say that values are objects, the properties were there in time. -/
theorem MergedFrom.own_fields (hm : MergedFrom b s kind g members own)
    (href : s.keywords.reference = none) (hobject : s.SaysObject ∨ s.properties = []) :
    ∃ ids, List.Forall₂ (fun entry id => Represents b entry.2 id) s.properties ids ∧
      (declaredFields g own).flatten = fieldsFor s.keywords.required s.properties ids := by
  have hown := hm.properties
  by_cases hproperties : s.properties = []
  · rw [hproperties, if_pos List.isEmpty_nil] at hown
    cases hown
    rw [hproperties]
    exact ⟨[], .nil, rfl⟩
  · rw [if_neg (by simpa using hproperties)] at hown
    obtain ⟨last, rfl, hlast⟩ : ∃ last, own = [last] ∧ Represents b s.alone last := by
      cases hown with
      | cons hid hrest =>
        cases hrest
        exact ⟨_, rfl, hid⟩
    obtain ⟨ids, hanonymous, hids⟩ :=
      hlast.alone_eq_object href (hobject.resolve_right hproperties) hproperties
    have hlt : last < g.size := hm.lt last (List.mem_append_right _ List.mem_cons_self)
    have hkind : g.kind last = .object (fieldsFor s.keywords.required s.properties ids) := by
      have hname : g.nameOf last = none := by
        rw [← hm.grows.nameOf_eq last hlt, hanonymous.nameOf]
      rw [← hm.grows.kind_eq last hlt (.inl hname), hanonymous.kind]
    refine ⟨ids, hids, ?_⟩
    rw [declaredFields, List.filterMap_cons, aliasedKind_of_object hkind (Nat.zero_lt_of_lt hlt)]
    exact List.append_nil _

theorem declaredFields_append (g : TypeGraph) (ids others : List TypeId) :
    declaredFields g (ids ++ others) = declaredFields g ids ++ declaredFields g others :=
  List.filterMap_append

/-- The properties of the schema come last. -/
theorem MergedFrom.lastType_eq (hm : MergedFrom b s kind g members own)
    (href : s.keywords.reference = none) (hobject : s.SaysObject ∨ s.properties = [])
    (name : String) : (∀ property, s.lastProperty name = some property →
        ∃ type, lastType (declaredFields g (members ++ own)).flatten name = some type ∧
          Represents b property type) ∧
      (s.lastProperty name = none →
        lastType (declaredFields g (members ++ own)).flatten name
          = lastType (declaredFields g members).flatten name) := by
  obtain ⟨ids, hids, hfields⟩ := hm.own_fields href hobject
  obtain ⟨hsome, hnone⟩ := lastType_fieldsFor hids name
  rw [declaredFields_append, List.flatten_append, lastType_append, hfields]
  constructor
  · intro property hproperty
    obtain ⟨type, htype, hid⟩ := hsome property hproperty
    exact ⟨type, by rw [htype]; rfl, hid⟩
  · intro hproperty
    rw [hnone hproperty]
    rfl

/-- A merged shape is complete just if the nodes that were on time supply all of it. -/
theorem MergedFrom.mergedComplete_iff (hm : MergedFrom b s kind g members own)
    (href : s.keywords.reference = none) :
    MergedComplete b s members kind ↔ Supplied b s members (onTime g (members ++ own)) := by
  constructor
  · rintro ⟨fields, hkind, hcomplete⟩
    rw [hm.kind_eq, mergedKind_eq_object_iff hm.lt, hm.declaredFields_eq] at hkind
    obtain ⟨hobject, rfl⟩ := hkind
    refine ⟨hobject, fun name type hname htype => ?_, .inr fun name property hproperty => ?_⟩
    · exact (mem_overlayAll_iff _ _ _).1 (hcomplete.inherited name type hname htype)
    · obtain ⟨field, hfield, hname, hid⟩ := hcomplete.own name property hproperty
      exact ⟨field.type, (mem_overlayAll_iff _ _ _).1 ⟨field, hfield, hname, rfl⟩, hid⟩
  · intro hsupplied
    have hall : ∀ name property, s.lastProperty name = some property →
        ∃ type, lastType (declaredFields b.graph (onTime g (members ++ own))).flatten name =
          some type ∧
          Represents b property type := by
      intro name property hproperty
      rcases hsupplied.own with hobject | hown
      · rw [← hm.declaredFields_eq]
        exact (hm.lastType_eq href (.inl hobject) name).1 property hproperty
      · exact hown name property hproperty
    refine ⟨overlayAll (declaredFields b.graph (onTime g (members ++ own))).flatten, ?_,
      nodup_overlayAll _, fun name type hname htype => ?_, fun name property hproperty => ?_⟩
    · rw [hm.kind_eq, mergedKind_eq_object_iff hm.lt, hm.declaredFields_eq]
      exact ⟨hsupplied.object, rfl⟩
    · exact (mem_overlayAll_iff _ _ _).2 (hsupplied.inherited name type hname htype)
    · obtain ⟨type, htype, hid⟩ := hall name property hproperty
      obtain ⟨field, hfield, hname, rfl⟩ := (mem_overlayAll_iff _ _ _).2 htype
      exact ⟨field, hfield, hname, hid⟩

/-- Nothing is missing if every object among the parts was one when it was merged. -/
theorem MergedFrom.complete_of_timely (hm : MergedFrom b s kind g members own)
    (href : s.keywords.reference = none) (hobject : s.SaysObject ∨ s.properties = [])
    (htimely : declaredFields g members = declaredFields b.graph members)
    (hmember : declaredFields b.graph members ≠ []) : MergedComplete b s members kind := by
  rw [hm.mergedComplete_iff href]
  refine ⟨?_, fun name type hname htype => ?_, ?_⟩ <;> rw [← hm.declaredFields_eq]
  · rw [declaredFields_append, htimely]
    exact fun hnil => hmember (List.append_eq_nil_iff.1 hnil).1
  · rw [(hm.lastType_eq href hobject name).2 hname, htimely]
    exact htype
  · exact .inr fun name => (hm.lastType_eq href hobject name).1

/-- **When a merged object is complete.**  Whatever has been mapped, and in whatever order, the node
of a schema that merges others was made from nodes for its parts and its own properties, in a graph
that has grown since.  It has all the fields that the parts have in the end just if the nodes that
had a shape by then supply them.  A node that had none and has one in the end is an alias of a named
node that was waiting for its shape. -/
theorem mergedComplete_iff_supplied (hd : Leads schemas Building.empty d)
    (hnode : NodeOf schemas d s id) (href : s.keywords.reference = none) (hparts : s.parts ≠ []) :
    ∃ g members own, MergedFrom d s (d.graph.kind id) g members own ∧
      (MergedComplete d s members (d.graph.kind id) ↔
        Supplied d s members (onTime g (members ++ own))) ∧
      ∀ member ∈ members ++ own, member ∉ onTime g (members ++ own) →
        aliasedKind d.graph member d.graph.size ≠ .unknown →
          ∃ n, g.nameOf (g.resolveWithin member n) ≠ none ∧
            g.kind (g.resolveWithin member n) = .unknown ∧
              d.graph.kind (g.resolveWithin member n) ≠ .unknown := by
  have hconsistent := (hd.advances (consistent_empty schemas)).consistent
  obtain ⟨g, members, own, hm⟩ := exists_mergedFrom (hnode.shaped hconsistent href) href hparts
  refine ⟨g, members, own, hm, hm.mergedComplete_iff href, fun member hmember hlate hknown => ?_⟩
  refine exists_waiting hm.sound hm.grows (hm.lt member hmember) ?_ hknown
  by_contra hshape
  refine hlate (List.mem_filter.2 ⟨hmember, ?_⟩)
  split
  · contradiction
  · rfl

/-! ## Schemas outside of the named ones -/

/-- A graph that has kept all nodes shows the same fields. -/
theorem declaredFields_of_extends (hg : g.Sound) (hgh : g.Extends h) {ids : List TypeId}
    (hids : ∀ id ∈ ids, id < g.size) : declaredFields g ids = declaredFields h ids := by
  refine List.filterMap_congr fun id hid => ?_
  have hkinds : ∀ n, h.kind (g.resolveWithin id n) = g.kind (g.resolveWithin id n) := fun n =>
    hgh.kind_eq (hg.resolveWithin_lt (hids id hid) n)
  by_cases hunknown : aliasedKind g id g.size = .unknown
  · have hstill : aliasedKind h id h.size = .unknown := by
      by_contra hknown
      rw [aliasedKind_congr hkinds] at hknown
      exact aliasedKind_size_ne_unknown hg (hids id hid) hknown hunknown
    rw [hunknown, hstill]
  · rw [aliasedKind_of_grows hg hgh.grows (hids id hid) hgh.size_le hunknown]

variable {t : Stage} {follow : String → Build TypeId}

/-- The node of a schema that merges is merged in a graph of which nothing changes any more, unless
named schemas wait. -/
theorem placeSchema_merges (hhead : s.All (HeadFollowed t follow))
    (href : s.keywords.reference = none) (hparts : s.parts ≠ []) (hb : Ready t b) :
    Goes t (placeSchema follow s) b fun id c =>
      ∃ g inner members own, WithNull c.graph inner s.keywords.nullable id ∧
        MergedFrom c s (c.graph.kind inner) g members own ∧ g.Extends c.graph := by
  rw [placeSchema, placeNode, href]
  refine goes_bind hb (merging_goes (watched_represents t)
    (fun part hpart => (placeSchema_goes ?_).placesAs) (placeSchema_goes ?_).placesAs href hparts hb
    trivial) fun kind c hc _ hmerged => ?_
  · cases hhead with
    | intro _ _ _ _ _ hpartsHead => exact hpartsHead part hpart
  · cases hhead with
    | intro here hproperties hitems hadditional halternatives _ =>
      exact .intro here hproperties hitems hadditional halternatives
        fun _ hpart => absurd hpart List.not_mem_nil
  obtain ⟨-, ids, rfl, hids⟩ := hmerged
  have hlt := forall₂_right hids fun _ _ _ hid => hid.lt hc.consistent.placedNodes
  have hadd := addable_mergedKind hc.consistent.grown.toSound hc.consistent.offers hlt
  refine add_described_goes hc hadd fun inner d hd hcd _ hinner => ?_
  refine (admitNull_goes hd hinner.lt s.keywords.nullable).mono fun id e hde hadmitted => ?_
  obtain ⟨-, hid⟩ := hadmitted
  have hce := hcd.trans hde
  have hinner' := hde.later.graph.isAnonymous hinner
  have hids' := hids.imp fun _ _ h => h.later hce.later hc.consistent.placedNodes
  obtain ⟨members, own, hm⟩ :=
    mergedFrom_of_forall₂ hc.consistent.grown.toSound hce.extended.grows hlt hids'
  refine ⟨c.graph, inner, members, own, hid, ?_, hce.extended⟩
  rwa [hinner'.kind]

/-- **Outside of the named schemas nothing is missing.**  Where all references name schemas, a
schema that merges others and is not itself named is mapped to an object that has all the fields of
its parts, whatever has been mapped before, unless its keywords say that values are no objects. -/
theorem mapSchema_mergedComplete {schemas : Dict Schema}
    (hall : AllResolved schemas fun _ => False) (hs : s.All (HeadResolved schemas fun _ => False))
    (href : s.keywords.reference = none) (hparts : s.parts ≠ [])
    (hobject : s.SaysObject ∨ s.properties = []) (hb : Leads schemas Building.empty b) :
    ∃ id c inner members, mapSchema schemas s b = .ok (id, c) ∧
      WithNull c.graph inner s.keywords.nullable id ∧
        List.Forall₂ (Represents c) s.parts members ∧
          (declaredFields c.graph members ≠ [] →
            MergedComplete c s members (c.graph.kind inner)) := by
  have hconsistent := (hb.advances (consistent_empty schemas)).consistent
  have hhead : s.All (HeadFollowed ⟨schemas, [], schemas.length, fun _ => False⟩
      (mapReference schemas)) :=
    hs.mono fun _ hinner reference href => mapReference_goes hall (hinner reference href)
  obtain ⟨id, c, hmap, -, g, inner, members, own, hid, hm, hextends⟩ :=
    (placeSchema_merges hhead href hparts (ready_of_consistent hconsistent)).exists_ok
  refine ⟨id, c, inner, members, hmap, hid, hm.parts, fun hmember => ?_⟩
  refine hm.complete_of_timely href hobject ?_ hmember
  exact declaredFields_of_extends hm.sound hextends fun id hid =>
    hm.lt id (List.mem_append_left _ hid)

/-! ## An example -/

/-- A tree with a label. -/
def labelled : Schema :=
  { Schema.ofKeywords { } with
    parts := [.ofKeywords { reference := some "#/components/schemas/Tree" },
      { Schema.ofKeywords { types := some ["object"] } with
        properties := [("label", .ofKeywords { types := some ["string"] })] }] }

/-- A tree with a child that is a tree with a label. -/
def tree : Schema :=
  { Schema.ofKeywords { types := some ["object"] } with properties := [("child", labelled)] }

/-- Trees alone. -/
def trees : Dict Schema := [("Tree", tree)]

/-- The name of the node of trees. -/
def treeName : String := Naming.freeName [] (Naming.typeName "Tree")

/-- The nodes when the child was merged: nothing was known of trees. -/
def treesWaiting : TypeGraph where
  nodes := #[⟨some treeName, .unknown, none⟩, ⟨none, .primitive .string, none⟩,
    ⟨none, .object [⟨"label", 1, false, none⟩], none⟩]
  names := [(treeName, 0)]

/-- The nodes when trees have been mapped: the child has no child. -/
def treesMapped : Building where
  graph :=
    { nodes := #[⟨some treeName, .object [⟨"child", 3, false, none⟩], none⟩,
        ⟨none, .primitive .string, none⟩, ⟨none, .object [⟨"label", 1, false, none⟩], none⟩,
        ⟨none, .object [⟨"label", 1, false, none⟩], none⟩]
      names := [(treeName, 0)] }
  placed := [("Tree", 0)]

theorem mapComponents_trees : mapComponents trees Building.empty = .ok ((), treesMapped) := rfl

theorem leads_trees : Leads trees Building.empty treesMapped :=
  .components .refl mapComponents_trees

theorem allResolved_trees : AllResolved trees fun _ => False := by
  have hscalar {keywords : Keywords} (href : keywords.reference = none) :
      (Schema.ofKeywords keywords).All (HeadResolved trees fun _ => False) := by
    refine Schema.all_ofKeywords fun reference href' => ?_
    have href'' : keywords.reference = some reference := href'
    rw [href] at href''
    cases href''
  have hpart : ∀ part ∈ labelled.parts, part.All (HeadResolved trees fun _ => False) := by
    intro part hpart
    rcases List.mem_cons.1 hpart with rfl | hpart
    · refine Schema.all_ofKeywords fun reference href => .inl ⟨"Tree", ?_, rfl⟩
      cases href
      decide +kernel
    · rw [List.mem_singleton.1 hpart]
      refine .intro (fun _ h => nomatch h) (fun entry hentry => ?_) (fun _ h => nomatch h)
        (fun _ h => nomatch h) (fun _ h => absurd h List.not_mem_nil)
        fun _ h => absurd h List.not_mem_nil
      rw [List.mem_singleton.1 hentry]
      exact hscalar rfl
  intro name s hs
  rw [trees, Dict.get?_cons] at hs
  split at hs
  · cases hs
    refine .intro (fun _ h => nomatch h) (fun entry hentry => ?_) (fun _ h => nomatch h)
      (fun _ h => nomatch h) (fun _ h => absurd h List.not_mem_nil)
      fun _ h => absurd h List.not_mem_nil
    rw [List.mem_singleton.1 hentry]
    exact .intro (fun _ h => nomatch h) (fun _ h => absurd h List.not_mem_nil)
      (fun _ h => nomatch h) (fun _ h => nomatch h) (fun _ h => absurd h List.not_mem_nil) hpart
  · cases hs

/-- The node of the child is the third behind that of trees. -/
theorem nodeOf_labelled : NodeOf trees treesMapped labelled 3 := by
  have hconsistent := (leads_trees.advances (consistent_empty trees)).consistent
  have hnode : NodeOf trees treesMapped tree 0 :=
    @NodeOf.named trees treesMapped tree "Tree" 0 rfl rfl rfl
  have hshaped := hnode.shaped hconsistent rfl
  have hobject : tree.SaysObject := ⟨rfl, rfl, rfl, rfl⟩
  generalize hkind : treesMapped.graph.kind 0 = kind at hshaped
  cases hshaped with
  | reference href => cases href
  | merged _ hparts => exact absurd rfl hparts
  | own _ _ howned =>
    obtain ⟨ids, rfl, hids⟩ := howned.eq_object hobject (List.cons_ne_nil _ _)
    cases hids with
    | @cons _ id _ _ hid hrest =>
      cases hrest
      have hchild : [(⟨"child", 3, false, none⟩ : Field)] = [⟨"child", id, false, none⟩] :=
        TypeKind.object.inj hkind
      rw [List.cons.injEq, Field.mk.injEq] at hchild
      rw [← hchild.1.2.1] at hid
      exact .inside hid .plain

theorem represents_parts : List.Forall₂ (Represents treesMapped) labelled.parts [0, 2] := by
  have hlabel : Represents treesMapped (.ofKeywords { types := some ["string"] }) 1 := by
    refine Stands.represents (.shape rfl ⟨by decide, rfl, rfl⟩ (.own rfl rfl ?_) .plain)
    exact .names rfl rfl rfl (.single (.scalar (by decide) (by decide)))
  refine .cons ?_ (.cons ?_ .nil)
  · exact Stands.represents (.reference rfl ⟨"Tree", by decide +kernel, rfl⟩ .plain)
  · refine Stands.represents (.shape rfl ⟨by decide, rfl, rfl⟩ (.own rfl rfl ?_) .plain)
    refine .names rfl rfl rfl (.single ?_)
    exact @NameShaped.object _ _ _ [1] rfl (.cons hlabel .nil)

/-- The child of a tree has a label, but it does not have a child: trees were waiting when their
fields were asked for. -/
theorem not_mergedComplete_labelled :
    AllResolved trees (fun _ => False) ∧
      mapComponents trees Building.empty = .ok ((), treesMapped) ∧
      NodeOf trees treesMapped labelled 3 ∧ labelled.keywords.reference = none ∧
        List.Forall₂ (Represents treesMapped) labelled.parts [0, 2] ∧
          declaredFields treesMapped.graph [0, 2]
            = [[⟨"child", 3, false, none⟩], [⟨"label", 1, false, none⟩]] ∧
            ¬MergedComplete treesMapped labelled [0, 2] (treesMapped.graph.kind 3) := by
  refine ⟨allResolved_trees, mapComponents_trees, nodeOf_labelled, rfl, represents_parts, rfl, ?_⟩
  rintro ⟨fields, hkind, hcomplete⟩
  obtain rfl : [(⟨"label", 1, false, none⟩ : Field)] = fields := TypeKind.object.inj hkind
  obtain ⟨field, hfield, hname, -⟩ := hcomplete.inherited "child" 3 rfl (by decide)
  rw [List.mem_singleton.1 hfield] at hname
  exact absurd hname (by decide)

/-- Trees and their children. -/
theorem mergedComplete_iff_supplied_labelled :
    Leads trees Building.empty treesMapped ∧ NodeOf trees treesMapped labelled 3 ∧
      labelled.keywords.reference = none ∧ labelled.parts ≠ [] ∧
        ∃ g members own, MergedFrom treesMapped labelled (treesMapped.graph.kind 3) g members own ∧
          (MergedComplete treesMapped labelled members (treesMapped.graph.kind 3) ↔
            Supplied treesMapped labelled members (onTime g (members ++ own))) ∧
          ∀ member ∈ members ++ own, member ∉ onTime g (members ++ own) →
            aliasedKind treesMapped.graph member treesMapped.graph.size ≠ .unknown →
              ∃ n, g.nameOf (g.resolveWithin member n) ≠ none ∧
                g.kind (g.resolveWithin member n) = .unknown ∧
                  treesMapped.graph.kind (g.resolveWithin member n) ≠ .unknown :=
  ⟨leads_trees, nodeOf_labelled, rfl, List.cons_ne_nil _ _,
    mergedComplete_iff_supplied leads_trees nodeOf_labelled rfl (List.cons_ne_nil _ _)⟩

end TypedClient.OpenApi
