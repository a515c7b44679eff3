import TypedClient.Proofs.Declaration.Excerpts
import TypedClient.Proofs.Emit.RoundTrip
import TypedClient.Proofs.Json.DoubleText
import TypedClient.Proofs.OpenApi.Shapes

/-!
# The surface of a client and the types of a schema

A file of declarations declares the types of operations and the client beside the types of the
schema, and functions that the reader skips.  None of it disturbs the types of the schema: each has
in the whole file the type that it has in a file of these types alone (`components_undisturbed`),
however the file is written.

* `numbersRead_of_normalize` says that the numbers of an OpenAPI definition are read, since integers
  of documents have 64 bits;
* `parseDeclarations_components` is what a file of the types of the schema is read as.
-/

set_option autoImplicit false

namespace TypedClient.Emit

open TypedClient.Api TypedClient.Declaration TypedClient.Types

variable {document : Json} {kind : Option SchemaKind} {api : Definition} {options : Options}
  {g : TypeGraph} {style : Style}

/-- The declarations of the types of the schema alone. -/
def components (s : Surface) : Code := tidy (s.types.flatMap ("" :: ·))

/-! ## Numbers -/

theorem exists_rereadNumber {n : Json.Number} (h : n.InRange) : ∃ m, rereadNumber? n = some m := by
  obtain ⟨m, hm⟩ := Json.exists_readNumber_text h
  exact ⟨m, by rw [rereadNumber?, numberValue?, hm]⟩

/-- The numbers of an OpenAPI definition are read as numbers. -/
theorem numbersRead_of_normalize (h : normalize document kind = .ok api)
    (hkind : api.kind = .openApi) (hrange : document.InRange) (id : TypeId) :
    NumbersRead (api.types.kind id) := by
  have hread := OpenApi.readGraph_of_normalize Json.inherited_inRange hrange h hkind id
  cases hshape : api.types.kind id with
  | enumeration values =>
    intro n hn
    cases hread.values values hshape _ hn with
    | number hn => exact exists_rereadNumber hn
  | _ => trivial

/-! ## The types of the schema -/

/-- The declarations that are read have the names of the types. -/
theorem exists_name_iff {nodes : List Statement} (hg : g.Grown)
    (hnodes : List.Forall₂ (ReadsNode (IsNameIn g) g style) g.names nodes) (name : String) :
    (∃ t ∈ nodes, t.name = name) ↔ IsNameIn g name := by
  constructor
  · rintro ⟨t, ht, rfl⟩
    obtain ⟨entry, hentry, hnode⟩ := exists_of_mem_right hnodes ht
    exact ⟨entry.2, hnode.name_eq ▸ hg.toSound.lookup_of_mem hentry⟩
  · rintro ⟨id, hid⟩
    obtain ⟨t, ht, hnode⟩ := exists_of_mem_left hnodes (Dict.mem_of_get? hid)
    exact ⟨t, ht, hnode.name_eq⟩

/-- A file of the types of the schema is read as their declarations. -/
theorem parseDeclarations_components {nodes : List Statement}
    (hnodes : List.Forall₂ (ReadsNode (IsNameIn api.types) api.types options.style) api.types.names
      nodes) :
    parseDeclarations (textOf (components (Surface.of api options))) = .ok (graphOf nodes) :=
  parseDeclarations_of_readsAs (readsAs_types hnodes)

/-- **The surface of a client does not disturb the types of the schema.**  Whatever is emitted for
an OpenAPI document, the file of declarations is read, and it gives every type of the schema a type
equivalent to the one that it has in the declarations of these types alone, which declare no
others. -/
theorem components_undisturbed (h : normalize document kind = .ok api) (hkind : api.kind = .openApi)
    (hrange : document.InRange) {artifact : Artifact} (hartifact : artifact ∈ emit api options)
    (hdeclarations : artifact.kind = .declarations) :
    ∃ whole alone, parseDeclarations artifact.contents = .ok whole ∧
      parseDeclarations (textOf (components (Surface.of api options))) = .ok alone ∧
      (∀ name, IsNameIn alone name ↔ IsNameIn api.types name) ∧
      ∀ name, IsNameIn api.types name → ∃ a b, whole.lookup name = some a ∧
        alone.lookup name = some b ∧ equivalent whole a alone b = true := by
  obtain ⟨hdeclarable, hcodes⟩ := declarable_of_normalize h
    (fun hgraphql => nomatch hkind.symm.trans hgraphql) (numbersRead_of_normalize h hkind hrange)
  obtain ⟨nodes, hnodes⟩ := exists_nodes hdeclarable options.style
  obtain ⟨others, hwhole, hothers, hnames⟩ := exists_others hdeclarable hcodes options.flavor hnodes
  have hname := exists_name_iff hdeclarable.grown hnodes
  have hwf : ∀ t ∈ nodes, t.WellFormed fun name => ∃ t ∈ nodes, t.name = name := by
    intro t ht
    obtain ⟨_, -, hnode⟩ := exists_of_mem_right hnodes ht
    exact hnode.wellFormed.mono fun name => (hname name).2
  have hnodup : (nodes.map Statement.name).Nodup := by
    rw [List.map_append] at hnames
    exact (List.nodup_append.1 hnames).1
  obtain ⟨-, hdefined, hknown⟩ := graphOf_spec hwf hnodup
  refine ⟨_, _, (contents_of_mem_emit hartifact hdeclarations) ▸ hwhole,
    parseDeclarations_components hnodes, fun name => ⟨?_, fun hisName => ?_⟩,
    fun name hisName => ?_⟩
  · rintro ⟨id, hid⟩
    exact (hname name).1 (or_self_iff.1 (hknown name id hid))
  · obtain ⟨t, ht, rfl⟩ := (hname name).2 hisName
    obtain ⟨id, _, hid⟩ := hdefined t ht
    exact ⟨id, hid.lookup⟩
  · obtain ⟨t, ht, rfl⟩ := (hname name).2 hisName
    exact equivalent_excerpt hwf hothers hnames ht

/-- A plugin whose unions are written as what their members have in common. -/
def widenedPlugin : Options := { unionStyle := .widened }

/-- The file of declarations beside the module of the plugin. -/
def pluginDeclarations (api : Definition) : Artifact :=
  ⟨.declarations, .fullNodePlugin, .typeScript, .esm, fileStem "api",
    textOf (standalone (Surface.of api widenedPlugin) .fullNodePlugin)⟩

theorem mem_emit_widenedPlugin (api : Definition) :
    pluginDeclarations api ∈ emit api widenedPlugin :=
  List.mem_cons_of_mem _ (List.mem_singleton_self _)

theorem inRange_catalogue : catalogueDocument.InRange := by
  rw [catalogueDocument]
  repeat' first
    | exact .null
    | exact .string _
    | exact .number ⟨by decide, by decide⟩
    | exact List.forall_mem_nil _
    | refine List.forall_mem_cons.2 ⟨?_, ?_⟩
    | refine .array ?_
    | refine .object ?_

/-- Beside the client and its options, movies have the type that they have alone. -/
theorem components_undisturbed_catalogue :
    (normalize catalogueDocument none = .ok catalogueApi ∧ catalogueApi.kind = .openApi ∧
      catalogueDocument.InRange ∧
      pluginDeclarations catalogueApi ∈ emit catalogueApi widenedPlugin) ∧
    ∃ whole alone name a b,
      parseDeclarations (pluginDeclarations catalogueApi).contents = .ok whole ∧
      parseDeclarations (textOf (components (Surface.of catalogueApi widenedPlugin))) = .ok alone ∧
      catalogueApi.types.nameOf 0 = some name ∧ whole.lookup name = some a ∧
      alone.lookup name = some b ∧ equivalent whole a alone b = true := by
  have hsome : (catalogueApi.types.nameOf 0).isSome = true := by decide +kernel
  obtain ⟨name, hname⟩ := Option.isSome_iff_exists.1 hsome
  obtain ⟨hdeclarable, -⟩ := declarable_of_normalize normalize_catalogue
    (fun hgraphql => nomatch kind_catalogue.symm.trans hgraphql)
    (numbersRead_of_normalize normalize_catalogue kind_catalogue inRange_catalogue)
  have hlookup := hdeclarable.grown.lookup_of_nameOf (TypeGraph.lt_of_nameOf hname) hname
  obtain ⟨whole, alone, hwhole, halone, -, htypes⟩ := components_undisturbed normalize_catalogue
    kind_catalogue inRange_catalogue (mem_emit_widenedPlugin catalogueApi) rfl
  obtain ⟨a, b, hmovies⟩ := htypes name ⟨0, hlookup⟩
  exact ⟨⟨normalize_catalogue, kind_catalogue, inRange_catalogue, mem_emit_widenedPlugin _⟩,
    whole, alone, name, a, b, hwhole, halone, hname, hmovies⟩

end TypedClient.Emit
