import TypedClient.Document
import TypedClient.Proofs.Dictionaries
import TypedClient.Proofs.Emit.RoundTrip
import TypedClient.Proofs.GraphQl.Nodes
import TypedClient.Proofs.Lists
import TypedClient.Proofs.Naming.TypeName
import TypedClient.Proofs.OpenApi.Walks
import TypedClient.Proofs.Types.Growth

/-!
# Which names types get

A node gets the name of a type that a source has, or a numbered variant of that name if it is taken.

* `Labelled` says so of the names of a graph, given the sources that have got a node, and
  `Labelled.lookup_iff` what follows for names that end in no digit: these are names of nodes just
  if they are the names of sources;
* `OneEach` says that there is one name for each source, and `OneEach.exists_sources` that there are
  as many of the one as of the other.

The named types of a definition come from the components of an OpenAPI document or from the types of
a GraphQL schema that can be reached.

* `NamesType` says which texts these are;
* `labelled_of_normalize` says that the nodes are labelled with them, and `oneEach_of_normalize`
  that there is one node with a name for each.

For documents this is one more property that every change of the graph keeps (`stable_labelled`),
and that all components have a node is known once they have been mapped (`placesAll_mapComponents`).
For schemas nothing but `reserveType` touches names.
-/

set_option autoImplicit false

namespace TypedClient.Types

open TypedClient.Naming

/-- Names of nodes are made for sources, and the name of each source is one. -/
structure Labelled (sources : String → Prop) (g : TypeGraph) : Prop where
  /-- Every name is made for a source. -/
  source : ∀ text id, g.lookup text = some id →
    ∃ name taken, sources name ∧ text = freeName taken (typeName name)
  /-- The names of sources are those of nodes. -/
  claimed : ∀ name, sources name → ∃ id, g.lookup (typeName name) = some id

variable {sources : String → Prop} {g : TypeGraph}

theorem labelled_empty : Labelled (fun _ => False) TypeGraph.empty where
  source _ _ h := nomatch h
  claimed _ h := h.elim

/-- One more source gets a node. -/
theorem Labelled.reserve (h : Labelled sources g) (name : String) :
    Labelled (fun other => sources other ∨ other = name)
      (g.reserve (g.uniqueName (typeName name))).1 := by
  have hnone := lookup_uniqueName g (typeName name)
  have hself := TypeGraph.lookup_reserve g (g.uniqueName (typeName name))
  refine ⟨fun text id hid => ?_, fun other hsource => ?_⟩
  · rcases (TypeGraph.lookup_reserve_eq_some_iff hnone).1 hid with ⟨htext, -⟩ | ⟨-, hid⟩
    · exact ⟨name, _, .inr rfl, htext⟩
    · obtain ⟨source, taken, hsource, htext⟩ := h.source text id hid
      exact ⟨source, taken, .inl hsource, htext⟩
  · rcases hsource with hsource | rfl
    · obtain ⟨id, hid⟩ := h.claimed other hsource
      exact ⟨id, TypeGraph.lookup_reserve_of_lookup hid _⟩
    · cases hid : g.lookup (typeName other) with
      | some id => exact ⟨id, TypeGraph.lookup_reserve_of_lookup hid _⟩
      | none =>
        have hfree : typeName other ∉ Dict.keys g.names := fun hmem => by
          have hcontains := Dict.contains_of_mem_keys hmem
          rw [Dict.contains, ← TypeGraph.lookup, hid] at hcontains
          cases hcontains
        rw [TypeGraph.uniqueName, freeName_of_not_mem hfree] at hself ⊢
        exact ⟨_, hself⟩

/-- What has the same names has them from the same sources. -/
theorem Labelled.of_lookup_eq {h : TypeGraph} (hg : Labelled sources g)
    (hlookup : ∀ text, h.lookup text = g.lookup text) : Labelled sources h :=
  ⟨fun text id hid => hg.source text id ((hlookup text).symm.trans hid), fun name hname => by
    obtain ⟨id, hid⟩ := hg.claimed name hname
    exact ⟨id, (hlookup _).trans hid⟩⟩

theorem Labelled.congr {others : String → Prop} (h : Labelled sources g)
    (hsources : ∀ name, sources name ↔ others name) : Labelled others g := by
  obtain rfl : sources = others := funext fun name => propext (hsources name)
  exact h

/-- **A name without a number at its end** is that of a node just if it is that of a source. -/
theorem Labelled.lookup_iff (h : Labelled sources g) {text : String} (htext : ¬EndsInDigit text) :
    (∃ id, g.lookup text = some id) ↔ ∃ name, sources name ∧ typeName name = text := by
  constructor
  · rintro ⟨id, hid⟩
    obtain ⟨name, taken, hname, rfl⟩ := h.source text id hid
    exact ⟨name, hname, candidate_eq_of_freeName htext⟩
  · rintro ⟨name, hname, rfl⟩
    exact h.claimed name hname

/-- Every source has a node of its own, and the nodes of sources are those with names. -/
structure OneEach (sources : String → Prop) (g : TypeGraph) (node : String → Option TypeId) :
    Prop where
  /-- The sources have nodes. -/
  node_iff : ∀ name, (∃ id, node name = some id) ↔ sources name
  /-- No two sources have the same node. -/
  injective : ∀ name other id, node name = some id → node other = some id → name = other
  /-- The nodes with names are those of sources. -/
  named_iff : ∀ id, (∃ text, g.lookup text = some id) ↔ ∃ name, node name = some id

theorem OneEach.congr {others : String → Prop} {node : String → Option TypeId}
    (h : OneEach sources g node) (hsources : ∀ name, sources name ↔ others name) :
    OneEach others g node :=
  ⟨fun name => (h.node_iff name).trans (hsources name), h.injective, h.named_iff⟩

/-- There are as many names as sources. -/
theorem OneEach.exists_sources {node : String → Option TypeId} (h : OneEach sources g node)
    (hg : g.Sound) : ∃ names : List String, names.Nodup ∧ (∀ name, name ∈ names ↔ sources name) ∧
      names.length = (Dict.keys g.names).length := by
  obtain ⟨names, hnames⟩ : ∃ names, List.Forall₂ (fun entry name => node name = some entry.2)
      g.names names := exists_forall₂ fun entry hentry =>
    (h.named_iff entry.2).1 ⟨entry.1, hg.lookup_of_mem hentry⟩
  have hnodes : names.map node = (g.names.map Prod.snd).map some := by
    rw [List.map_map, ← List.forall₂_eq_eq_eq, List.forall₂_map_left_iff,
      List.forall₂_map_right_iff]
    exact hnames.flip
  have hids : (g.names.map Prod.snd).Nodup := by
    have hkeys : (g.names.map Prod.fst).Nodup := hg.ordered.nodup
    refine (List.nodup_map_iff_inj_on hkeys.of_map).2 fun entry hentry other hother hsame => ?_
    have hname := hg.nameOf_of_lookup (hg.lookup_of_mem hentry)
    rw [hsame, hg.nameOf_of_lookup (hg.lookup_of_mem hother)] at hname
    exact Prod.ext (Option.some.inj hname).symm hsame
  refine ⟨names, ?_, fun name => ⟨fun hname => ?_, fun hname => ?_⟩, ?_⟩
  · refine List.Nodup.of_map node ?_
    rw [hnodes]
    exact hids.map fun _ _ => Option.some.inj
  · obtain ⟨entry, -, hnode⟩ := exists_of_mem_right hnames hname
    exact (h.node_iff name).1 ⟨_, hnode⟩
  · obtain ⟨id, hid⟩ := (h.node_iff name).2 hname
    obtain ⟨text, htext⟩ := (h.named_iff id).2 ⟨name, hid⟩
    obtain ⟨other, hother, hnode⟩ := exists_of_mem_left hnames (Dict.mem_of_get? htext)
    exact h.injective other name id hnode hid ▸ hother
  · rw [Dict.keys, List.length_map, hnames.length_eq]

end TypedClient.Types

/-! ## Named types of a definition -/

namespace TypedClient

open TypedClient.Types

variable {document : Json} {api : Api.Definition}

namespace OpenApi

variable {schemas : Dict Schema} {d : Document} {b : Building}

/-- The nodes with names are those of the schemas that have been placed. -/
def LabelledAsPlaced (b : Building) : Prop :=
  Labelled (fun name => ∃ id, Dict.get? b.placed name = some id) b.graph

theorem labelledAsPlaced_empty : LabelledAsPlaced Building.empty :=
  labelled_empty.congr fun _ => by simp [Building.empty]

theorem LabelledAsPlaced.reserve (h : LabelledAsPlaced b) (name : String) :
    LabelledAsPlaced (withReserved b name) := by
  refine (Labelled.reserve h name).congr fun other => ?_
  by_cases heq : other = name
  · subst heq
    exact iff_of_true (.inr rfl) ⟨_, get?_reserved_self b other⟩
  · rw [get?_reserved_of_ne heq, or_iff_left heq]

/-- Every change of the graph keeps the labels. -/
theorem stable_labelled (schemas : Dict Schema) :
    Stable schemas (fun _ => True) (fun _ => True) LabelledAsPlaced where
  plain := fun _ _ _ => trivial
  object := fun _ _ _ _ => trivial
  constant := fun _ _ _ _ => trivial
  values := fun _ _ => trivial
  merged := fun _ _ _ => trivial
  alone := fun _ _ => trivial
  add := fun _ _ hb _ => hb.of_lookup_eq fun _ => rfl
  describe := fun _ _ _ hb => hb.of_lookup_eq fun _ => rfl
  reserve := fun _ name _ hb _ => hb.reserve name
  shape := fun _ _ _ hb _ => hb.of_lookup_eq fun _ => rfl

theorem kept_labelled (d : Document) : Kept (fun _ => True) LabelledAsPlaced d where
  formed := formed_true
  all := d.allSchemas_of_forall fun _ => trivial
  mapSchema := fun s _ => (stable_labelled d.schemas).mapSchema
    (fun entry _ => Schema.all_of_forall (fun _ => trivial) entry.2)
    (Schema.all_of_forall (fun _ => trivial) s)
  mapComponents := (stable_labelled d.schemas).mapComponents
    fun entry _ => Schema.all_of_forall (fun _ => trivial) entry.2

/-- The state is consistent, and all components have nodes. -/
structure PlacesAll (schemas : Dict Schema) (b : Building) : Prop where
  /-- The state is consistent. -/
  consistent : Consistent schemas [] b
  /-- All components have nodes. -/
  placed : ∀ name ∈ Dict.keys schemas, Dict.contains b.placed name = true

theorem PlacesAll.advance {c : Building} (hb : PlacesAll schemas b)
    (hbc : Advances schemas [] b c) :
    PlacesAll schemas c :=
  ⟨hbc.consistent, fun name hname => contains_of_placed hbc (hb.placed name hname)⟩

theorem PlacesAll.mem_keys_iff (hb : PlacesAll schemas b) (name : String) :
    (∃ id, Dict.get? b.placed name = some id) ↔ name ∈ Dict.keys schemas := by
  constructor
  · rintro ⟨id, hid⟩
    obtain ⟨s, hs⟩ := hb.consistent.known name id hid
    exact List.mem_map.2 ⟨_, Dict.mem_of_get? hs, rfl⟩
  · exact fun hname => Option.isSome_iff_exists.1 (hb.placed name hname)

theorem kept_placesAll (d : Document) : Kept (fun _ => True) (PlacesAll d.schemas) d where
  formed := formed_true
  all := d.allSchemas_of_forall fun _ => trivial
  mapSchema := fun s _ b hb => fun result hresult => by
    have hs : s.All (HeadResolved d.schemas fun _ => True) :=
      Schema.all_of_forall (fun _ _ _ => .inr trivial) s
    exact ⟨hb.advance ((mapSchema_goes allResolved_of_true hs hb.consistent).of_ok hresult).1,
      trivial⟩
  mapComponents := fun b hb => fun result hresult =>
    ⟨hb.advance ((mapComponents_goes allResolved_of_true hb.consistent).of_ok hresult).1, trivial⟩

theorem placesAll_mapComponents (d : Document) :
    Yields (mapComponents d.schemas Building.empty) fun result => PlacesAll d.schemas result.2 := by
  intro result hresult
  obtain ⟨hadvances, hplaced⟩ :=
    (mapComponents_goes allResolved_of_true (consistent_empty d.schemas)).of_ok hresult
  exact ⟨hadvances.consistent, hplaced⟩

/-- The named types of a document are its components. -/
theorem labelled_of_document (h : d.toDefinition = .ok api) :
    Labelled (· ∈ Dict.keys d.schemas) api.types := by
  obtain ⟨version, operations, built, -, hbuilt, -, htypes⟩ := yields_toDefinition d api h
  have hlabelled :=
    (buildOperations_keeps (kept_labelled d) version _ labelledAsPlaced_empty _ hbuilt).1
  have hall :=
    (yields_buildOperations (kept_placesAll d) version (placesAll_mapComponents d) _ hbuilt).1
  rw [htypes]
  exact Labelled.congr hlabelled hall.mem_keys_iff

/-- Each component has a node with a name. -/
theorem oneEach_of_document (h : d.toDefinition = .ok api) :
    ∃ node, OneEach (· ∈ Dict.keys d.schemas) api.types node := by
  obtain ⟨version, operations, built, -, hbuilt, -, htypes⟩ := yields_toDefinition d api h
  have hall :=
    (yields_buildOperations (kept_placesAll d) version (placesAll_mapComponents d) _ hbuilt).1
  have hsound := hall.consistent.grown.toSound
  refine ⟨Dict.get? built.placed, hall.mem_keys_iff, hall.consistent.injective, fun id => ?_⟩
  rw [htypes]
  constructor
  · rintro ⟨text, htext⟩
    exact hall.consistent.covered id text (hsound.nameOf_of_lookup htext)
  · rintro ⟨name, hid⟩
    obtain ⟨text, htext⟩ := hall.consistent.named name id hid
    exact ⟨text, hsound.lookup_of_nameOf (TypeGraph.lt_of_nameOf htext) htext⟩

end OpenApi

namespace GraphQl

variable {schema : Introspection} {named : Dict TypeId} {g : TypeGraph} {sources : String → Prop}

theorem labelled_reserveTypes (names : List String) (hg : Labelled sources g) :
    Labelled (fun name => sources name ∨ name ∈ names) (names.foldlM reserveType named g).2 := by
  induction names generalizing sources named g with
  | nil => exact hg.congr fun _ => by simp
  | cons name names ih =>
    rw [List.foldlM_cons]
    exact (ih (hg.reserve name)).congr fun other => by rw [List.mem_cons, or_assoc]

/-- A node gets its shape, and all names stay. -/
theorem lookup_defineType (schema : Introspection) (named : Dict TypeId) (name : String)
    (g : TypeGraph) (text : String) :
    (defineType schema named name g).2.lookup text = g.lookup text := by
  cases htype : schema.find? name with
  | none => rw [defineType_of_none (.inl htype)]
  | some type =>
    cases hid : Dict.get? named name with
    | none => rw [defineType_of_none (.inr hid)]
    | some id =>
      rw [defineType_of_some htype hid]
      exact ((adding_shapeOf named type) g).1.lookup_eq text

theorem lookup_defineTypes (schema : Introspection) (named : Dict TypeId) (names : List String)
    (g : TypeGraph) (text : String) :
    (names.forM (defineType schema named) g).2.lookup text = g.lookup text := by
  induction names generalizing g with
  | nil => rfl
  | cons name names ih => exact (ih _).trans (lookup_defineType schema named name g text)

/-- The names of the graph are those that have been reserved. -/
theorem lookup_buildDefinition (schema : Introspection) (text : String) :
    (buildDefinition schema TypeGraph.empty).2.lookup text =
      ((reachable schema).foldlM reserveType [] TypeGraph.empty).2.lookup text := by
  let reserved := (reachable schema).foldlM reserveType [] TypeGraph.empty
  have hadds : Adds ((reachable schema).forM (defineType schema reserved.1) reserved.2).2
      (buildDefinition schema TypeGraph.empty).2 := (adding_passThrough _).1
  rw [hadds.lookup_eq, lookup_defineTypes]

theorem labelled_buildDefinition (schema : Introspection) :
    Labelled (· ∈ reachable schema) (buildDefinition schema TypeGraph.empty).2 := by
  have hreserved : Labelled (· ∈ reachable schema)
      ((reachable schema).foldlM reserveType [] TypeGraph.empty).2 :=
    (labelled_reserveTypes (reachable schema) labelled_empty).congr fun name => or_iff_right id
  exact hreserved.of_lookup_eq (lookup_buildDefinition schema)

/-- The named types of a schema are those that can be reached. -/
theorem labelled_of_introspection (h : schema.toDefinition = .ok api) :
    Labelled (· ∈ reachable schema) api.types := by
  rw [Introspection.toDefinition] at h
  split at h
  · cases h
  · rw [← Except.ok.inj h]
    exact labelled_buildDefinition schema

/-- Each type that can be reached has a node with a name. -/
theorem oneEach_of_introspection (h : schema.toDefinition = .ok api) :
    ∃ node, OneEach (· ∈ reachable schema) api.types node := by
  have hnodup : ([] ++ reachable schema).Nodup := nodup_reachable schema
  have hreserved := reserved_empty.reserveAll hnodup
  have hsound := hreserved.grown.toSound
  rw [Introspection.toDefinition] at h
  split at h
  · cases h
  · rw [← Except.ok.inj h]
    refine ⟨Dict.get? ((reachable schema).foldlM reserveType [] TypeGraph.empty).1,
      hreserved.node_iff, hreserved.injective, fun id => ?_⟩
    change (∃ text, (buildDefinition schema TypeGraph.empty).2.lookup text = some id) ↔ _
    rw [← hreserved.named_iff]
    simp only [lookup_buildDefinition, hsound.indexed]
    constructor
    · rintro ⟨text, -, htext⟩
      exact ⟨text, htext⟩
    · rintro ⟨text, htext⟩
      exact ⟨text, TypeGraph.lt_of_nameOf htext, htext⟩

end GraphQl

/-! ## Definitions -/

/-- The text is what the document calls a named type of the definition. -/
inductive NamesType (document : Json) (api : Api.Definition) : String → Prop
  /-- An OpenAPI document has components. -/
  | component {d : OpenApi.Document} {name : String} (hkind : api.kind = .openApi)
      (hd : OpenApi.Document.ofJson document = .ok d) (hname : name ∈ Dict.keys d.schemas) :
      NamesType document api name
  /-- A GraphQL schema has types. -/
  | declared {schema : GraphQl.Introspection} {name : String} (hkind : api.kind = .graphql)
      (hschema : GraphQl.Introspection.ofJson document = .ok schema)
      (hname : name ∈ GraphQl.reachable schema) : NamesType document api name

/-- The types of an OpenAPI document are its components. -/
theorem namesType_iff_component {d : OpenApi.Document}
    (hd : OpenApi.Document.ofJson document = .ok d) (h : d.toDefinition = .ok api) (name : String) :
    name ∈ Dict.keys d.schemas ↔ NamesType document api name := by
  have hkind := OpenApi.kind_of_document h
  refine ⟨.component hkind hd, fun hname => ?_⟩
  cases hname with
  | component _ hother hname => exact Except.ok.inj (hother.symm.trans hd) ▸ hname
  | declared hgraphql => cases hkind.symm.trans hgraphql

/-- The types of a GraphQL schema are those that can be reached. -/
theorem namesType_iff_reachable {schema : GraphQl.Introspection}
    (hschema : GraphQl.Introspection.ofJson document = .ok schema)
    (h : schema.toDefinition = .ok api) (name : String) :
    name ∈ GraphQl.reachable schema ↔ NamesType document api name := by
  have hkind := OpenApi.kind_of_introspection h
  refine ⟨.declared hkind hschema, fun hname => ?_⟩
  cases hname with
  | component hopenApi => cases hkind.symm.trans hopenApi
  | declared _ hother hname => exact Except.ok.inj (hother.symm.trans hschema) ▸ hname

/-- **The named types of a definition are those of the document.** -/
theorem labelled_of_normalize {kind : Option Api.SchemaKind}
    (h : normalize document kind = .ok api) :
    Labelled (NamesType document api) api.types :=
  OpenApi.yields_normalize (Q := fun api => Labelled (NamesType document api) api.types)
    (fun _ hd _ hapi => (OpenApi.labelled_of_document hapi).congr (namesType_iff_component hd hapi))
    (fun _ hschema _ hapi =>
      (GraphQl.labelled_of_introspection hapi).congr (namesType_iff_reachable hschema hapi)) api h

/-- **Each type of the document has a node of its own**, and these are the nodes with names. -/
theorem oneEach_of_normalize {kind : Option Api.SchemaKind}
    (h : normalize document kind = .ok api) :
    ∃ node, OneEach (NamesType document api) api.types node := by
  refine OpenApi.yields_normalize
    (Q := fun api => ∃ node, OneEach (NamesType document api) api.types node)
    (fun _ hd _ hapi => ?_) (fun _ hschema _ hapi => ?_) api h
  · obtain ⟨node, hnode⟩ := OpenApi.oneEach_of_document hapi
    exact ⟨node, hnode.congr (namesType_iff_component hd hapi)⟩
  · obtain ⟨node, hnode⟩ := GraphQl.oneEach_of_introspection hapi
    exact ⟨node, hnode.congr (namesType_iff_reachable hschema hapi)⟩

end TypedClient
