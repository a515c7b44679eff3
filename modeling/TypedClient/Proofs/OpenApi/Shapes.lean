import TypedClient.Proofs.OpenApi.Merging
import TypedClient.Proofs.OpenApi.Operations
import TypedClient.Proofs.OpenApi.Reading
import TypedClient.Proofs.OpenApi.Walks

/-!
# Shapes of read documents

No object type of an OpenAPI definition has two fields of one name, and the values of its
enumerations are values of the document.  The fields of a schema of its own are its properties,
which are a dictionary, and merged fields are laid over each other by name.  The values are those
that a schema lists.

* `ReadGraph` says it of a graph, for any property of values that a document passes on to its parts,
  and `stable_read` that every change of the graph keeps it, so that mapping does;
* `readGraph_of_normalize` says it of every OpenAPI definition, and `distinctFields_of_normalize`
  what it says about names.
-/

set_option autoImplicit false

namespace TypedClient.OpenApi

open TypedClient.Api TypedClient.Types

/-- The fields of a shape, if it has any, have distinct names. -/
def DistinctKind (kind : TypeKind) : Prop :=
  ∀ fields, kind = .object fields → (fields.map Field.name).Nodup

/-- No object type of the graph has two fields of one name. -/
def DistinctFields (g : TypeGraph) : Prop := ∀ id, DistinctKind (g.kind id)

/-- The fields of a shape have distinct names, and the values of an enumeration have the
property. -/
structure ReadKind (P : Json → Prop) (kind : TypeKind) : Prop where
  /-- The names are distinct. -/
  distinct : DistinctKind kind
  /-- The values have the property. -/
  values : ∀ values, kind = .enumeration values → ∀ value ∈ values, P value

/-- All shapes of the graph are so. -/
def ReadGraph (P : Json → Prop) (g : TypeGraph) : Prop := ∀ id, ReadKind P (g.kind id)

/-- A step keeps the shapes as they are read. -/
abbrev StaysRead {α : Type} (P : Json → Prop) (m : Build α) : Prop :=
  Keeps (fun b => ReadGraph P b.graph) (fun _ => True) m

variable {P : Json → Prop}
variable {g : TypeGraph} {kind : TypeKind} {s : Schema}

/-! ## Changes of the graph -/

theorem readKind_unknown : ReadKind P .unknown :=
  ⟨nofun, nofun⟩

theorem ReadGraph.add (hg : ReadGraph P g) (hkind : ReadKind P kind) :
    ReadGraph P (g.add kind) := by
  intro id
  rcases Nat.lt_or_ge id g.size with hlt | hge
  · rw [(TypeGraph.extends_add g kind).kind_eq hlt]
    exact hg id
  · rcases TypeGraph.kind_add_of_size_le hge kind with h | h
    · rwa [h]
    · rw [h]
      exact readKind_unknown

theorem ReadGraph.setKind (hg : ReadGraph P g) (hkind : ReadKind P kind) (id : TypeId) :
    ReadGraph P (g.setKind id kind) := by
  intro other
  by_cases heq : other = id
  · subst heq
    rcases Nat.lt_or_ge other g.size with hlt | hge
    · rwa [TypeGraph.kind_setKind_self hlt]
    · rw [TypeGraph.kind_of_size_le (by rwa [TypeGraph.setKind, TypeGraph.size_modify])]
      exact readKind_unknown
  · rw [TypeGraph.kind_setKind_of_ne g heq]
    exact hg other

theorem ReadGraph.setDescription (hg : ReadGraph P g) (id : TypeId) (text : Option String) :
    ReadGraph P (g.setDescription id text) := by
  intro other
  rw [TypeGraph.kind_setDescription]
  exact hg other

theorem readGraph_reserved {b : Building} (hb : ReadGraph P b.graph) (name : String) :
    ReadGraph P (withReserved b name).graph := by
  intro id
  rw [kind_reserved]
  exact hb id

/-! ## Mapping -/

/-- Merged fields have distinct names, and a single other type keeps its own. -/
theorem readKind_mergedKind (hg : ReadGraph P g) (ids : List TypeId) :
    ReadKind P (mergedKind g ids) := by
  rw [mergedKind_eq]
  split
  · split
    · split
      · exact ⟨nofun, nofun⟩
      · exact hg _
    · exact readKind_unknown
  · exact ⟨fun _ heq => TypeKind.object.inj heq ▸ nodup_overlayAll _, nofun⟩

/-- Mapping keeps shapes as they are read. -/
theorem stable_read (schemas : Dict Schema) :
    Stable schemas (Schema.ReadHead P) (ReadKind P) fun b => ReadGraph P b.graph where
  plain := fun kind hobject henumeration =>
    ⟨fun fields heq => absurd heq (hobject fields),
      fun values heq => absurd heq (henumeration values)⟩
  object := fun s fields hs hfields =>
    ⟨fun _ heq => by
      rw [← TypeKind.object.inj heq, hfields]
      exact hs.distinct, nofun⟩
  constant := fun s value hs hvalue =>
    ⟨nofun, fun _ heq => TypeKind.enumeration.inj heq ▸
      List.forall_mem_singleton.2 (hs.constant value hvalue)⟩
  values := fun s hs => ⟨nofun, fun _ heq => TypeKind.enumeration.inj heq ▸ hs.values⟩
  merged := fun _ ids hb => readKind_mergedKind hb ids
  alone := fun _ hs => ⟨hs.distinct, hs.values, hs.constant⟩
  add := fun _ _ hb hkind => hb.add hkind
  describe := fun _ id text hb => hb.setDescription id text
  reserve := fun _ name _ hb _ => readGraph_reserved hb name
  shape := fun _ id _ hb hkind => hb.setKind hkind id

variable {schemas : Dict Schema}

theorem mapSchema_keeps (hschemas : ∀ entry ∈ schemas, entry.2.Read P) (hs : s.Read P) :
    StaysRead P (mapSchema schemas s) := (stable_read schemas).mapSchema hschemas hs

theorem mapComponents_keeps (hschemas : ∀ entry ∈ schemas, entry.2.Read P) :
    StaysRead P (mapComponents schemas) := (stable_read schemas).mapComponents hschemas

/-! ## Definitions -/

theorem readHead_of_valueless (hdistinct : (s.properties.map Prod.fst).Nodup)
    (h : s.keywords.Valueless) : s.ReadHead P where
  distinct := hdistinct
  values := by
    rw [h.values]
    exact List.forall_mem_nil _
  constant := by
    rw [h.constant]
    exact nofun

theorem formed_read : Formed (Schema.Read P) where
  keywords := fun _ h => Schema.all_ofKeywords (readHead_of_valueless List.nodup_nil h)
  properties := fun _ entries h hentries =>
    .intro (readHead_of_valueless (Dict.nodup_ofList entries) h)
      (fun entry hentry => hentries entry (Dict.mem_of_mem_ofList hentry)) (fun _ h => nomatch h)
      (fun _ h => nomatch h) (List.forall_mem_nil _) (List.forall_mem_nil _)

theorem kept_read {d : Document} (hd : d.AllSchemas (Schema.Read P)) :
    Kept (Schema.Read P) (fun b => ReadGraph P b.graph) d where
  formed := formed_read
  all := hd
  mapSchema := fun _ hs => mapSchema_keeps hd.schemas hs
  mapComponents := mapComponents_keeps hd.schemas

/-- **The shapes of an OpenAPI definition** are those of a document that was read: fields have
distinct names, and values of enumerations have whatever property the document passes on to its
parts. -/
theorem readGraph_of_normalize (hP : Inherited P) {document : Json} (hdocument : P document)
    {kind : Option SchemaKind} {api : Definition} (h : normalize document kind = .ok api)
    (hkind : api.kind = .openApi) : ReadGraph P api.types := by
  obtain ⟨d, hread, hd⟩ := exists_document_of_normalize h hkind
  have hempty : ReadGraph P Building.empty.graph := fun id => by
    rw [TypeGraph.kind_of_size_le (Nat.zero_le _)]
    exact readKind_unknown
  obtain ⟨-, built, hbuilt, htypes⟩ :=
    (kept_read (allSchemas_of_ofJson hP hdocument hread)).toDefinition hempty api hd
  rw [htypes]
  exact hbuilt

/-- **No object type of an OpenAPI definition has two fields of one name.** -/
theorem distinctFields_of_normalize {document : Json} {kind : Option SchemaKind} {api : Definition}
    (h : normalize document kind = .ok api) (hkind : api.kind = .openApi) :
    DistinctFields api.types :=
  fun id => (readGraph_of_normalize inherited_true trivial h hkind id).distinct

end TypedClient.OpenApi
