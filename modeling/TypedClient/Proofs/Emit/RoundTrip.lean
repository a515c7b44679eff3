import TypedClient.Emit.Artifact
import TypedClient.Proofs.Emit.Standalone
import TypedClient.Proofs.GraphQl.Building
import TypedClient.Proofs.OpenApi.Mapping
import TypedClient.Proofs.OpenApi.Operations

/-!
# Emitted declarations are read back

Whatever document a definition is made of, the file of declarations that is emitted for it is read,
and it is known just when every named type is found again (`parseDeclarations_emitted`).
-/

set_option autoImplicit false

namespace TypedClient.OpenApi

open TypedClient.Api TypedClient.Declaration TypedClient.Types

/-- Mapping the schemas of a document keeps states consistent. -/
theorem kept_consistent (d : Document) : Kept (fun _ => True) (Consistent d.schemas []) d where
  formed := formed_true
  all := d.allSchemas_of_forall fun _ => trivial
  mapSchema := fun s _ b hb => fun result hresult => by
    have hs : s.All (HeadResolved d.schemas fun _ => True) :=
      Schema.all_of_forall (fun _ _ _ => .inr trivial) s
    exact ⟨((mapSchema_goes allResolved_of_true hs hb).of_ok hresult).1.consistent, trivial⟩
  mapComponents := fun b hb => fun result hresult =>
    ⟨((mapComponents_goes allResolved_of_true hb).of_ok hresult).1.consistent, trivial⟩

/-- **The graph of an OpenAPI document can be declared** if its numbers can be read, and the codes
of its responses have 16 bits. -/
theorem declarable_of_document {d : Document} {api : Definition} (h : d.toDefinition = .ok api)
    (hnumbers : ∀ id, NumbersRead (api.types.kind id)) :
    Declarable api.types ∧ ∀ op ∈ api.operations, op.CodesFit := by
  obtain ⟨hoperations, built, hbuilt, htypes⟩ :=
    (kept_consistent d).toDefinition (consistent_empty d.schemas) api h
  rw [htypes] at hnumbers ⊢
  exact ⟨⟨hbuilt.grown, hbuilt.declared, hbuilt.offers, hnumbers⟩,
    fun op hop => (hoperations op hop).2⟩

end TypedClient.OpenApi

namespace TypedClient.Emit

open TypedClient.Api TypedClient.Declaration TypedClient.Types

variable {document : Json} {kind : Option SchemaKind} {api : Definition} {options : Options}

/-- The graph of a document can be declared. -/
theorem declarable_of_normalize (h : normalize document kind = .ok api)
    (hoffers : api.kind = .graphql → ∀ id, (api.types.kind id).Offers)
    (hnumbers : ∀ id, NumbersRead (api.types.kind id)) :
    Declarable api.types ∧ ∀ op ∈ api.operations, op.CodesFit := by
  exact OpenApi.yields_normalize (Q := fun api =>
    (api.kind = .graphql → ∀ id, (api.types.kind id).Offers) →
      (∀ id, NumbersRead (api.types.kind id)) →
        Declarable api.types ∧ ∀ op ∈ api.operations, op.CodesFit)
    (fun d _ api hapi _ hnumbers => OpenApi.declarable_of_document hapi hnumbers)
    (fun schema _ api hapi hoffers _ =>
      GraphQl.declarable_of_introspection hapi (hoffers (OpenApi.kind_of_introspection hapi)))
    api h hoffers hnumbers

/-- An artifact is a file of declarations or a module, and a TypeScript module has the types in
it. -/
theorem mem_emit {artifact : Artifact} (h : artifact ∈ emit api options) :
    artifact.kind = .declarations ∧
        artifact.contents = textOf (standalone (Surface.of api options) options.flavor) ∨
      artifact.contents = textOf (bindings options (Surface.of api options)) ∧
        artifact.kind = if options.typescript then .combined else .bindings := by
  rw [emit] at h
  generalize standalone (Surface.of api options) options.flavor = declared at h ⊢
  generalize bindings options (Surface.of api options) = code at h ⊢
  split at h
  · rw [List.mem_singleton.1 h]
    exact .inl ⟨rfl, rfl⟩
  all_goals
    split at h
    · rename_i htypescript
      rw [List.mem_singleton.1 h, if_pos htypescript]
      exact .inr ⟨rfl, rfl⟩
    · rename_i htypescript
      rcases List.mem_cons.1 h with h | h
      · rw [h, if_neg htypescript]
        exact .inr ⟨rfl, rfl⟩
      · rw [List.mem_singleton.1 h]
        exact .inl ⟨rfl, rfl⟩

/-- A file of declarations has the declarations of the surface. -/
theorem contents_of_mem_emit {artifact : Artifact} (h : artifact ∈ emit api options)
    (hkind : artifact.kind = .declarations) :
    artifact.contents = textOf (standalone (Surface.of api options) options.flavor) := by
  rcases mem_emit h with ⟨-, hcontents⟩ | ⟨-, hmodule⟩
  · exact hcontents
  · rw [hkind] at hmodule
    split at hmodule <;> cases hmodule

/-- There are always declarations, in a file of their own or in a module. -/
theorem exists_mem_emit (api : Definition) (options : Options) :
    ∃ artifact ∈ emit api options, artifact.kind ≠ .bindings := by
  rw [emit]
  generalize standalone (Surface.of api options) options.flavor = declared
  generalize bindings options (Surface.of api options) = code
  split
  · exact ⟨_, List.mem_singleton_self _, ArtifactKind.noConfusion⟩
  all_goals
    split
    · exact ⟨_, List.mem_singleton_self _, ArtifactKind.noConfusion⟩
    · exact ⟨_, List.mem_cons_of_mem _ (List.mem_singleton_self _), ArtifactKind.noConfusion⟩

/-- **Emitted declarations are read back.** -/
theorem parseDeclarations_emitted (h : normalize document kind = .ok api)
    (hoptional : options.propsOptional = true) (hnative : options.unionStyle = .native)
    {artifact : Artifact} (hartifact : artifact ∈ emit api options)
    (hdeclarations : artifact.kind = .declarations)
    (hoffers : api.kind = .graphql → ∀ id, (api.types.kind id).Offers)
    (hnumbers : ∀ id, NumbersRead (api.types.kind id)) :
    ∃ reparsed, parseDeclarations artifact.contents = .ok reparsed ∧
      (api.types.covers reparsed = true ↔ ∀ id, InUse api.types id → Canonical api.types id) := by
  obtain ⟨hdeclarable, hcodes⟩ := declarable_of_normalize h hoffers hnumbers
  have hstyle : options.style = faithful := by
    rw [Options.style, hoptional, hnative]
    rfl
  rw [contents_of_mem_emit hartifact hdeclarations]
  exact parseDeclarations_standalone hdeclarable hstyle hcodes options.flavor

/-- A document of movies that follow each other, with a choice of values and one of types. -/
def catalogueDocument : Json := .object [
  ("components", .object [("schemas", .object [("Movie", .object [
    ("properties", .object [
      ("genre", .object [("enum", .array [.string "new", .null, .number (.integer 7)])]),
      ("sequel", .object [("$ref", .string "#/components/schemas/Movie")]),
      ("value", .object [("oneOf", .array [
        .object [("type", .string "string")], .object [("type", .string "number")]])])]),
    ("required", .array [.string "value"]),
    ("type", .string "object")])])]),
  ("openapi", .string "3.0.3"),
  ("paths", .object [("/movies", .object [("get", .object [
    ("operationId", .string "listMovies"),
    ("responses", .object [("200", .object [("description", .string "all movies")])])])])])]

/-- The definition of the document. -/
def catalogueApi : Definition :=
  match normalize catalogueDocument none with
  | .ok api => api
  | .error _ => ⟨.openApi, "", "", [], [], .empty, none⟩

theorem normalize_catalogue : normalize catalogueDocument none = .ok catalogueApi := by
  obtain ⟨api, hapi⟩ := exists_eq_ok (m := normalize catalogueDocument none) (by decide +kernel)
  rw [catalogueApi, hapi]

theorem canonical_catalogue : ∀ id < catalogueApi.types.size, Canonical catalogueApi.types id := by
  decide +kernel

theorem kind_catalogue : catalogueApi.kind = .openApi :=
  OpenApi.kind_eq_openApi normalize_catalogue rfl

/-- The declarations alone. -/
def typesOnly : Options := { flavor := .typesOnly }

/-- The file of declarations. -/
def declarationsFile (api : Definition) : Artifact :=
  ⟨.declarations, .typesOnly, .typeScript, .esm, fileStem "api",
    textOf (standalone (Surface.of api typesOnly) .typesOnly)⟩

theorem mem_emit_typesOnly (api : Definition) : declarationsFile api ∈ emit api typesOnly :=
  List.mem_singleton_self _

theorem numbersRead_of_canonical {g : TypeGraph} (h : ∀ id < g.size, Canonical g id) (id : TypeId) :
    NumbersRead (g.kind id) := by
  rcases Nat.lt_or_ge id g.size with hid | hid
  · exact (h id hid).numbersRead
  · rw [TypeGraph.kind_of_size_le hid]
    trivial

/-- The declarations of the document of movies are read, and movies are found again. -/
theorem parseDeclarations_emitted_catalogue :
    (normalize catalogueDocument none = .ok catalogueApi ∧
      declarationsFile catalogueApi ∈ emit catalogueApi typesOnly ∧
      catalogueApi.kind ≠ .graphql ∧ ∀ id, NumbersRead (catalogueApi.types.kind id)) ∧
    ∃ reparsed, parseDeclarations (declarationsFile catalogueApi).contents = .ok reparsed ∧
      catalogueApi.types.covers reparsed = true := by
  have hkind : catalogueApi.kind ≠ .graphql := by
    rw [kind_catalogue]
    exact SchemaKind.noConfusion
  have hnumbers := numbersRead_of_canonical canonical_catalogue
  obtain ⟨hdeclarable, -⟩ :=
    declarable_of_normalize normalize_catalogue (fun h => absurd h hkind) hnumbers
  obtain ⟨reparsed, hparse, hiff⟩ := parseDeclarations_emitted normalize_catalogue rfl rfl
    (mem_emit_typesOnly catalogueApi) rfl (fun h => absurd h hkind) hnumbers
  exact ⟨⟨normalize_catalogue, mem_emit_typesOnly _, hkind, hnumbers⟩, reparsed, hparse,
    hiff.2 fun id hid => canonical_catalogue id (hid.lt hdeclarable.grown)⟩

/-- A document with a type whose only value is an object. -/
def listedDocument : Json := .object [
  ("components", .object [("schemas", .object [("A", .object [
    ("enum", .array [.object [("a", .number (.integer 1))]])])])]),
  ("openapi", .string "3.0.3"),
  ("paths", .object [])]

/-- The definition of the document. -/
def listedApi : Definition :=
  match normalize listedDocument none with
  | .ok api => api
  | .error _ => ⟨.openApi, "", "", [], [], .empty, none⟩

theorem normalize_listed : normalize listedDocument none = .ok listedApi := by
  obtain ⟨api, hapi⟩ := exists_eq_ok (m := normalize listedDocument none) (by decide +kernel)
  rw [listedApi, hapi]

/-- Not every emitted file gives back the types it was made from: a value that is an object is
declared as unknown. -/
theorem not_covers_listed : ¬∀ (document : Json) (kind : Option SchemaKind) (api : Definition)
    (options : Options) (artifact : Artifact), normalize document kind = .ok api →
      options.propsOptional = true → options.unionStyle = .native → artifact ∈ emit api options →
        artifact.kind = .declarations → ∃ reparsed,
          parseDeclarations artifact.contents = .ok reparsed ∧
            api.types.covers reparsed = true := by
  intro hclaim
  obtain ⟨reparsed, hparse, hcovers⟩ := hclaim listedDocument none listedApi typesOnly
    (declarationsFile listedApi) normalize_listed rfl rfl (mem_emit_typesOnly listedApi) rfl
  have hkind : listedApi.kind = .openApi := OpenApi.kind_eq_openApi normalize_listed rfl
  have hnumbers : ∀ id, NumbersRead (listedApi.types.kind id) := by
    have hall : ∀ id < listedApi.types.size, NumbersRead (listedApi.types.kind id) := by
      decide +kernel
    intro id
    rcases Nat.lt_or_ge id listedApi.types.size with hid | hid
    · exact hall id hid
    · rw [TypeGraph.kind_of_size_le hid]
      trivial
  obtain ⟨hdeclarable, hcodes⟩ := declarable_of_normalize normalize_listed
    (fun h => SchemaKind.noConfusion (h.symm.trans hkind)) hnumbers
  obtain ⟨other, hother, hiff⟩ :=
    @parseDeclarations_standalone _ typesOnly hdeclarable rfl hcodes .typesOnly
  have hsame : reparsed = other := Except.ok.inj (hparse.symm.trans hother)
  have hnamed : listedApi.types.nameOf 0 ≠ none := by
    have hsome : (listedApi.types.nameOf 0).isSome = true := by decide +kernel
    exact Option.isSome_iff_ne_none.1 hsome
  have hcanonical := hiff.1 (hsame ▸ hcovers) 0 (.named hnamed)
  exact absurd hcanonical (by decide +kernel)

end TypedClient.Emit
