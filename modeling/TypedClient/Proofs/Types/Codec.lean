import TypedClient.Proofs.Json.Arrangement
import TypedClient.Types.Codec

/-!
# Type graphs are read back

What is written for a graph is read as the same graph, if positions have 64 bits and the index of
names is in order (`TypeGraph.recovers`).  Members may stand in any order, but the values of
enumerations have to stay as they are.
-/

set_option autoImplicit false

namespace TypedClient.Types

open Json

variable {f : Json → Json} {field : Field} {kind : TypeKind} {node : TypeNode} {g : TypeGraph}

/-- The positions that a shape refers to have 64 bits. -/
def TypeKind.Fits (kind : TypeKind) : Prop := ∀ id ∈ kind.references, id < 2 ^ 64

instance (kind : TypeKind) : Decidable kind.Fits :=
  inferInstanceAs (Decidable (∀ id ∈ kind.references, id < 2 ^ 64))

/-- Positions have 64 bits, and the index of names is in order. -/
structure TypeGraph.Fits (g : TypeGraph) : Prop where
  /-- Positions in shapes have 64 bits. -/
  kinds : ∀ node ∈ g.nodes.toList, node.kind.Fits
  /-- Positions in the index have 64 bits. -/
  index : ∀ entry ∈ g.names, entry.2 < 2 ^ 64
  /-- The index is in order. -/
  ordered : Dict.Ordered g.names

instance (g : TypeGraph) : Decidable g.Fits :=
  have : Decidable (Dict.Ordered g.names) :=
    inferInstanceAs (Decidable ((g.names.map Prod.fst).Pairwise (· < ·)))
  decidable_of_iff
    ((∀ node ∈ g.nodes.toList, node.kind.Fits) ∧ (∀ entry ∈ g.names, entry.2 < 2 ^ 64) ∧
    Dict.Ordered g.names) ⟨fun h => ⟨h.1, h.2.1, h.2.2⟩, fun h => ⟨h.kinds, h.index, h.ordered⟩⟩

/-- The values of enumerations stay as they are. -/
def TypeKind.KeepsValues (f : Json → Json) (kind : TypeKind) : Prop :=
  ∀ values, kind = .enumeration values → ∀ value ∈ values, f value = value

/-- The values of all enumerations of the graph stay as they are. -/
def TypeGraph.KeepsValues (f : Json → Json) (g : TypeGraph) : Prop :=
  ∀ node ∈ g.nodes.toList, node.kind.KeepsValues f

theorem text_null (s : String) : text .null ≠ .ok s := nofun

theorem decodeId_null (id : TypeId) : decodeId .null ≠ .ok id := nofun

/-- The fields that are written for a field of an object type. -/
def Field.fields (field : Field) : List (String × Option Json) :=
  [("name", some (.string field.name)), ("ty", some (.ofNat field.type)),
    ("required", some (.bool field.required)), ("description", field.description.map .string)]

theorem Field.encode_eq (field : Field) : field.encode = .object (written field.fields) := by
  rw [encode, fields]
  cases field.description <;> rfl

/-- The fields that are written for a node. -/
def TypeNode.fields (node : TypeNode) : List (String × Option Json) :=
  [("name", node.name.map .string), ("kind", some node.kind.encode),
    ("description", node.description.map .string)]

theorem TypeNode.encode_eq (node : TypeNode) : node.encode = .object (written node.fields) := by
  rw [encode, fields]
  cases node.name <;> cases node.description <;> rfl

/-- The fields that are written for a graph. -/
def TypeGraph.fields (g : TypeGraph) : List (String × Option Json) :=
  [("nodes", some (ofList TypeNode.encode g.nodes.toList)), ("names", some (ofDict .ofNat g.names))]

theorem TypeGraph.encode_eq (g : TypeGraph) : g.encode = .object (written g.fields) := rfl

section

variable (hf : Arranges f)

include hf

theorem Field.recovers (h : field.type < 2 ^ 64) : Recovers f encode decode field := by
  rw [Recovers, encode_eq]
  obtain ⟨r, hr, hopened⟩ := exists_opened hf "Field" ["name", "ty", "required", "description"]
    false field.fields rfl (by decide)
  have hname := hopened.required "name" (by simp [fields]) (hf.recovers_text field.name)
  have htype := hopened.required "ty" (by simp [fields]) (hf.recovers_natural h)
  have hrequired := hopened.required "required" (by simp [fields])
    (hf.recovers_flag field.required)
  have hdescription := hopened.optional "description" field.description
    (by simp [fields]) text_null fun s _ => hf.recovers_text s
  simp only [decode, hr, hname, decodeId, htype, hrequired, hdescription, bind, Except.bind]
  rfl

theorem Primitive.recovers (p : Primitive) :
    Recovers f (fun p => .string p.text) (choice options) p := by
  refine hf.recovers_choice text ?_
  cases p <;> rfl

theorem TypeKind.recovers (h : kind.Fits) (hvalues : kind.KeepsValues f) :
    Recovers f encode decode kind := by
  have hid {id : TypeId} (hid : id ∈ kind.references) : Recovers f .ofNat decodeId id :=
    hf.recovers_natural (h id hid)
  cases kind with
  | unknown =>
    rw [Recovers, encode, hf.string]
    rfl
  | primitive p =>
    obtain ⟨part, htagged, hpart⟩ := hf.exists_tagged "primitive" (.string p.text)
    have hread : choice Primitive.options part.1 = .ok p := hpart ▸ Primitive.recovers hf p
    simp only [Recovers, encode, decode, htagged, hread, bind, Except.bind]
    rfl
  | object fields =>
    obtain ⟨part, htagged, hpart⟩ := hf.exists_tagged "object" (ofList Field.encode fields)
    have hread : list Field.decode part.1 = .ok fields :=
      hpart ▸ hf.recovers_list fun field hfield =>
      Field.recovers hf (h field.type (List.mem_map_of_mem hfield))
    simp only [Recovers, encode, decode, htagged, hread, bind, Except.bind]
    rfl
  | map value =>
    obtain ⟨part, htagged, hpart⟩ := hf.exists_tagged "map" (.ofNat value)
    have hread : decodeId part.1 = .ok value := hpart ▸ hid (List.mem_singleton_self value)
    simp only [Recovers, encode, decode, htagged, hread, bind, Except.bind]
    rfl
  | array item =>
    obtain ⟨part, htagged, hpart⟩ := hf.exists_tagged "array" (.ofNat item)
    have hread : decodeId part.1 = .ok item := hpart ▸ hid (List.mem_singleton_self item)
    simp only [Recovers, encode, decode, htagged, hread, bind, Except.bind]
    rfl
  | enumeration values =>
    obtain ⟨part, htagged, hpart⟩ := hf.exists_tagged "enum" (.array values)
    have hread : list .ok part.1 = .ok values := by
      have hlist : Recovers f (ofList id) (list .ok) values := hf.recovers_list fun value hvalue =>
        congrArg Except.ok (hvalues values rfl value hvalue)
      rwa [Recovers, ofList, List.map_id, ← hpart] at hlist
    simp only [Recovers, encode, decode, htagged, hread, bind, Except.bind]
    rfl
  | union members =>
    obtain ⟨part, htagged, hpart⟩ := hf.exists_tagged "union" (ofList .ofNat members)
    have hread : list decodeId part.1 = .ok members :=
      hpart ▸ hf.recovers_list fun _ hmember => hid hmember
    simp only [Recovers, encode, decode, htagged, hread, bind, Except.bind]
    rfl

theorem TypeNode.recovers (h : node.kind.Fits) (hvalues : node.kind.KeepsValues f) :
    Recovers f encode decode node := by
  rw [Recovers, encode_eq]
  obtain ⟨r, hr, hopened⟩ := exists_opened hf "TypeNode" ["name", "kind", "description"]
    false node.fields rfl (by decide)
  have hname := hopened.optional "name" node.name (by simp [fields]) text_null
    fun s _ => hf.recovers_text s
  have hkind := hopened.required "kind" (by simp [fields]) (TypeKind.recovers hf h hvalues)
  have hdescription := hopened.optional "description" node.description
    (by simp [fields]) text_null fun s _ => hf.recovers_text s
  simp only [decode, hr, hname, hkind, hdescription, bind, Except.bind]
  rfl

/-- **A graph is read back.** -/
theorem TypeGraph.recovers (h : g.Fits) (hvalues : g.KeepsValues f) :
    Recovers f encode decode g := by
  rw [Recovers, encode_eq]
  obtain ⟨r, hr, hopened⟩ := exists_opened hf "TypeGraph" ["nodes", "names"]
    false g.fields rfl (by decide)
  have hnodes := hopened.required "nodes" (by simp [fields]) (hf.recovers_list
    fun node hnode => TypeNode.recovers hf (h.kinds node hnode) (hvalues node hnode))
  have hindex : Recovers f (ofDict .ofNat) (dict decodeId) g.names :=
    hf.recovers_dict h.ordered fun entry hentry => hf.recovers_natural (h.index entry hentry)
  have hnames := hopened.required "names" (by simp [fields]) hindex
  simp only [decode, hr, hnodes, hnames, bind, Except.bind]
  rfl

end

/-! ## What is read -/

theorem yields_field (value : Json) :
    Yields (Field.decode value) fun field => field.type < 2 ^ 64 := by
  rw [Field.decode]
  refine (yields_true _).bind fun r _ => (yields_true _).bind fun _ _ => ?_
  refine (r.yields_required "ty" fun part => yields_natural 64 part.1).bind fun _ htype => ?_
  exact (yields_true _).bind fun _ _ => (yields_true _).bind fun _ _ => yields_pure htype

theorem yields_kind (value : Json) : Yields (TypeKind.decode value) TypeKind.Fits := by
  have hnone {kind : TypeKind} (h : kind.references = []) : kind.Fits := fun id hid => by
    rw [h] at hid
    cases hid
  rw [TypeKind.decode]
  refine (yields_true _).bind fun parts _ => ?_
  split
  · exact yields_pure (hnone rfl)
  · exact yields_pure (hnone rfl)
  · exact (yields_true _).bind fun _ _ => yields_pure (hnone rfl)
  · refine (yields_list inherited_true (fun value _ => yields_field value) trivial).bind
      fun fields hfields => yields_pure ?_
    exact List.forall_mem_map.2 hfields
  · exact (yields_natural 64 _).bind fun _ hid => yields_pure (List.forall_mem_singleton.2 hid)
  · exact (yields_natural 64 _).bind fun _ hid => yields_pure (List.forall_mem_singleton.2 hid)
  · exact (yields_true _).bind fun _ _ => yields_pure (hnone rfl)
  · exact (yields_list inherited_true (fun value _ => yields_natural 64 value) trivial).bind
      fun _ hmembers => yields_pure hmembers
  · split
    · exact yields_error _
    · split <;> exact yields_error _

theorem yields_graph (value : Json) : Yields (TypeGraph.decode value) TypeGraph.Fits := by
  have hnode (value : Json) : Yields (TypeNode.decode value) fun node => node.kind.Fits := by
    rw [TypeNode.decode]
    refine (yields_true _).bind fun r _ => (yields_true _).bind fun _ _ => ?_
    refine (r.yields_required "kind" fun part => yields_kind part.1).bind fun _ hkind => ?_
    exact (yields_true _).bind fun _ _ => yields_pure hkind
  rw [TypeGraph.decode]
  refine (yields_true _).bind fun r _ => ?_
  refine (r.yields_required "nodes" fun part =>
    yields_list inherited_true (fun value _ => hnode value) trivial).bind fun nodes hnodes => ?_
  refine (r.yields_required "names" fun part => (yields_dict inherited_true
    (fun value _ => yields_natural 64 value) trivial).and (yields_ordered decodeId part.1)).bind
      fun names hnames => yields_pure ⟨?_, hnames.1, hnames.2⟩
  rwa [List.toList_toArray]

end TypedClient.Types
