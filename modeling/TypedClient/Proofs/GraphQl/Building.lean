import TypedClient.GraphQl.Normalize
import TypedClient.Proofs.Api.Operation
import TypedClient.Proofs.Declaration.Declarable
import TypedClient.Proofs.Naming.TypeName

/-!
# The graph of a GraphQL schema

Building the graph of a schema keeps it in order, whatever the schema says: references lead to
nodes, names can be declared and only nodes with names refer forwards (`grown_of_introspection`,
`declarable_of_introspection`).  `Builds` says this of one step, and that the ids in what the step
answers belong to nodes.
-/

set_option autoImplicit false

namespace TypedClient.GraphQl

open TypedClient.Api TypedClient.Declaration TypedClient.Naming TypedClient.Types

/-! ## Steps -/

/-- A graph that is being built, while the types of the schema have these nodes. -/
structure Proper (named : Dict TypeId) (g : TypeGraph) : Prop where
  /-- The graph is in order. -/
  grown : g.Grown
  /-- Names of nodes can be declared. -/
  declared : ∀ id text, g.nameOf id = some text → IsDeclaredName text
  /-- The nodes of types have names. -/
  named : ∀ name id, Dict.get? named name = some id → g.nameOf id ≠ none
  /-- Numbers in enumerations are read as numbers. -/
  numbers : ∀ id, NumbersRead (g.kind id)

/-- From the graph the step goes on to one in order that has no fewer nodes, and what it answers
mentions only nodes of that. -/
structure Builds {α : Type} (named : Dict TypeId) (mentioned : α → List TypeId) (m : Build α)
    (g : TypeGraph) : Prop where
  /-- The graph is in order. -/
  proper : Proper named (m g).2
  /-- Nodes stay. -/
  size_le : g.size ≤ (m g).2.size
  /-- What is mentioned belongs to the graph. -/
  lt : ∀ id ∈ mentioned (m g).1, id < (m g).2.size

variable {α β : Type} {named : Dict TypeId} {g : TypeGraph} {kind : TypeKind}
  {mentioned : α → List TypeId} {others : β → List TypeId}

theorem builds_pure (hg : Proper named g) {a : α} (h : ∀ id ∈ mentioned a, id < g.size) :
    Builds named mentioned (pure a) g := ⟨hg, Nat.le_refl _, h⟩

theorem Builds.bind {m : Build α} {f : α → Build β} (h : Builds named mentioned m g)
    (hf : ∀ a h, Proper named h → g.size ≤ h.size → (∀ id ∈ mentioned a, id < h.size) →
      Builds named others (f a) h) : Builds named others (m >>= f) g := by
  have hrest := hf (m g).1 (m g).2 h.proper h.size_le h.lt
  exact ⟨hrest.proper, Nat.le_trans h.size_le hrest.size_le, hrest.lt⟩

theorem builds_mapM {f : β → Build α} {xs : List β}
    (hf : ∀ x ∈ xs, ∀ g, Proper named g → Builds named mentioned (f x) g) (hg : Proper named g) :
    Builds named (fun as => as.flatMap mentioned) (xs.mapM f) g := by
  induction xs generalizing g with
  | nil => exact builds_pure hg (List.forall_mem_nil _)
  | cons x xs ih =>
    obtain ⟨hfirst, hrest⟩ := List.forall_mem_cons.1 hf
    rw [List.mapM_cons]
    refine (hfirst g hg).bind fun a h hh hle ha => (ih hrest hh).bind fun as k hk hle' has => ?_
    refine builds_pure hk fun id hid => ?_
    rw [List.flatMap_cons] at hid
    rcases List.mem_append.1 hid with hid | hid
    · exact Nat.lt_of_lt_of_le (ha id hid) hle'
    · exact has id hid

/-! ## Nodes -/

theorem Proper.add (hg : Proper named g) (hkind : ∀ child ∈ kind.references, child < g.size)
    (hnumbers : NumbersRead kind) : Proper named (g.add kind) := by
  have hname {id : TypeId} {text : String} (h : (g.add kind).nameOf id = some text) :
      g.nameOf id = some text := by
    rcases Nat.lt_or_ge id g.size with hid | hid
    · rwa [(TypeGraph.extends_add g kind).nameOf_eq hid] at h
    · rw [TypeGraph.nameOf_add_of_size_le hid] at h
      cases h
  refine ⟨hg.grown.add hkind, fun id text htext => hg.declared id text (hname htext),
    fun name id hid => ?_, fun id => ?_⟩
  · obtain ⟨text, htext⟩ := Option.ne_none_iff_exists'.1 (hg.named name id hid)
    rw [(TypeGraph.extends_add g kind).nameOf_eq (TypeGraph.lt_of_nameOf htext), htext]
    exact Option.some_ne_none _
  · rcases Nat.lt_or_ge id g.size with hid | hid
    · rw [(TypeGraph.extends_add g kind).kind_eq hid]
      exact hg.numbers id
    · rcases TypeGraph.kind_add_of_size_le hid kind with hsame | hsame
      · rwa [hsame]
      · rw [hsame]
        trivial

theorem builds_add (kind : TypeKind) (hg : Proper named g)
    (hkind : ∀ child ∈ kind.references, child < g.size) (hnumbers : NumbersRead kind) :
    Builds named (fun id => [id]) (add kind) g := by
  have hsize : (g.add kind).size = g.size + 1 := TypeGraph.size_add g kind
  refine ⟨hg.add hkind hnumbers, ?_, List.forall_mem_singleton.2 ?_⟩
  · change g.size ≤ (g.add kind).size
    omega
  · change g.size < (g.add kind).size
    omega

theorem numbersRead_scalarKind (name : String) : NumbersRead (scalarKind name) := by
  rw [scalarKind.eq_def]
  split <;> trivial

theorem references_scalarKind (name : String) : (scalarKind name).references = [] := by
  rw [scalarKind.eq_def]
  split <;> rfl

theorem builds_placeName (name : Option String) (hg : Proper named g) :
    Builds named (fun id => [id]) (placeName named name) g := by
  rw [placeName.eq_def]
  split
  · exact builds_add .unknown hg (List.forall_mem_nil _) trivial
  · split
    · rename_i id hid
      obtain ⟨text, htext⟩ := Option.ne_none_iff_exists'.1 (hg.named _ id hid)
      exact builds_pure hg (List.forall_mem_singleton.2 (TypeGraph.lt_of_nameOf htext))
    · rename_i name _ _
      refine builds_add _ hg ?_ (numbersRead_scalarKind name)
      rw [references_scalarKind]
      exact List.forall_mem_nil _

/-- The node for a reference is there once the step is done. -/
theorem builds_placeReference (r : TypeRef) (hg : Proper named g) :
    Builds named (fun id => [id]) (placeReference named r) g := by
  induction r generalizing g with
  | plain kind name => exact builds_placeName name hg
  | wrapping kind name inner ih =>
    rw [placeReference.eq_def]
    split
    · rename_i heq
      cases heq
      exact ih hg
    · rename_i heq
      cases heq
      exact (ih hg).bind fun id h hh _ hid => builds_add (.array id) hh hid trivial
    · rename_i heq
      cases heq
      exact builds_placeName _ hg
    · rename_i heq
      cases heq

theorem builds_placeField (name : String) (description : Option String) (type : TypeRef)
    (hg : Proper named g) :
    Builds named (fun field => [field.type]) (placeField named name description type) g :=
  (builds_placeReference type hg).bind fun _ _ hh _ hid => builds_pure hh hid

/-! ## Types -/

/-- The shape of a type refers to nodes of the graph. -/
theorem builds_shapeOf (t : DeclaredType) (hg : Proper named g) :
    Builds named TypeKind.references (shapeOf named t) g := by
  have hobject {β : Type} {f : β → Build Field} {xs : List β}
      (hf : ∀ x g, Proper named g → Builds named (fun field => [field.type]) (f x) g) :
      Builds named TypeKind.references (do return .object (← xs.mapM f)) g := by
    refine (builds_mapM (fun x _ => hf x) hg).bind fun fields h hh _ hfields => builds_pure hh ?_
    rwa [← List.map_eq_flatMap] at hfields
  rw [shapeOf.eq_def]
  split
  · exact hobject fun f _ => builds_placeField f.name f.description f.type
  · exact hobject fun f _ => builds_placeField f.name f.description f.type
  · exact hobject fun f _ => builds_placeField f.name f.description f.type
  · exact builds_pure hg (List.forall_mem_nil _)
  · refine (builds_mapM (fun r _ _ hh => builds_placeReference r hh) hg).bind
      fun members h hh _ hmembers => builds_pure hh ?_
    rwa [← List.map_eq_flatMap, List.map_id'] at hmembers
  · exact builds_pure hg (List.forall_mem_nil _)

/-- The values of an enumeration are texts. -/
theorem numbersRead_shapeOf (named : Dict TypeId) (t : DeclaredType) (g : TypeGraph) :
    NumbersRead (shapeOf named t g).1 := by
  rw [shapeOf.eq_def]
  cases t.kind with
  | enumeration =>
    intro n hn
    obtain ⟨text, -, htext⟩ := List.mem_map.1 hn
    cases htext
  | _ => trivial

/-- A type gets the node behind the others. -/
theorem reserveType_eq (named : Dict TypeId) (name : String) (g : TypeGraph) :
    reserveType named name g =
      (Dict.insert named name g.size, (g.reserve (g.uniqueName (typeName name))).1) := by
  have hid : (g.reserve (g.uniqueName (typeName name))).2 = g.size := by
    rw [TypeGraph.reserve_of_lookup_none (lookup_uniqueName g _)]
  rw [← hid]
  rfl

/-- Reserving a node for a type. -/
theorem proper_reserveType (name : String) (hg : Proper named g) :
    Proper (reserveType named name g).1 (reserveType named name g).2 := by
  have hnone := lookup_uniqueName g (typeName name)
  rw [reserveType_eq]
  refine ⟨hg.grown.reserve _, fun id text htext => ?_, fun other id hother => ?_, fun id => ?_⟩
  · rcases (TypeGraph.nameOf_reserve_eq_some_iff hnone).1 htext with ⟨-, rfl⟩ | htext
    · exact isDeclaredName_freeName _ (isDeclaredName_typeName name)
    · exact hg.declared id text htext
  · simp only [Option.ne_none_iff_exists', TypeGraph.nameOf_reserve_eq_some_iff hnone]
    rcases Dict.get?_insert_eq_some_iff.1 hother with ⟨-, rfl⟩ | ⟨-, hother⟩
    · exact ⟨_, .inl ⟨rfl, rfl⟩⟩
    · obtain ⟨text, htext⟩ := Option.ne_none_iff_exists'.1 (hg.named other id hother)
      exact ⟨text, .inr htext⟩
  · rw [TypeGraph.kind_reserve]
    exact hg.numbers id

theorem Proper.setKind (hg : Proper named g) {id : TypeId} (hname : g.nameOf id ≠ none)
    (hkind : ∀ child ∈ kind.references, child < g.size) (hnumbers : NumbersRead kind) :
    Proper named (g.setKind id kind) := by
  refine ⟨hg.grown.setKind hname hkind, fun other text htext => ?_, fun name other hother => ?_,
    fun other => ?_⟩
  · rw [TypeGraph.nameOf_setKind] at htext
    exact hg.declared other text htext
  · rw [TypeGraph.nameOf_setKind]
    exact hg.named name other hother
  · by_cases heq : other = id
    · obtain ⟨text, htext⟩ := Option.ne_none_iff_exists'.1 hname
      rwa [heq, TypeGraph.kind_setKind_self (TypeGraph.lt_of_nameOf htext)]
    · rw [TypeGraph.kind_setKind_of_ne g heq]
      exact hg.numbers other

theorem Proper.setDescription (hg : Proper named g) (id : TypeId) (text : Option String) :
    Proper named (g.setDescription id text) := by
  refine ⟨hg.grown.setDescription id text, fun other name hname => ?_, fun name other hother => ?_,
    fun other => ?_⟩
  · rw [TypeGraph.nameOf_setDescription] at hname
    exact hg.declared other name hname
  · rw [TypeGraph.nameOf_setDescription]
    exact hg.named name other hother
  · rw [TypeGraph.kind_setDescription]
    exact hg.numbers other

/-- A type that is declared and has a node lends the node its shape. -/
theorem defineType_of_some {schema : Introspection} {name : String} {type : DeclaredType}
    {id : TypeId} (htype : schema.find? name = some type) (hid : Dict.get? named name = some id)
    (g : TypeGraph) : (defineType schema named name g).2
      = ((shapeOf named type g).2.setKind id (shapeOf named type g).1).setDescription id
          type.description := by
  rw [defineType.eq_def, htype, hid]
  rfl

/-- Any other name changes nothing. -/
theorem defineType_of_none {schema : Introspection} {name : String}
    (h : schema.find? name = none ∨ Dict.get? named name = none) (g : TypeGraph) :
    (defineType schema named name g).2 = g := by
  rw [defineType.eq_def]
  rcases h with h | h
  · rw [h]
    rfl
  · rw [h]
    cases schema.find? name <;> rfl

/-- Giving a reserved node its shape. -/
theorem proper_defineType (schema : Introspection) (name : String) (hg : Proper named g) :
    Proper named (defineType schema named name g).2 := by
  cases htype : schema.find? name with
  | none => rwa [defineType_of_none (.inl htype)]
  | some type =>
    cases hid : Dict.get? named name with
    | none => rwa [defineType_of_none (.inr hid)]
    | some id =>
      have hshape := builds_shapeOf type hg
      rw [defineType_of_some htype hid]
      exact (hshape.proper.setKind (hshape.proper.named name id hid) hshape.lt
        (numbersRead_shapeOf named type g)).setDescription id type.description

theorem proper_reserveTypes (names : List String) (hg : Proper named g) :
    Proper (names.foldlM reserveType named g).1 (names.foldlM reserveType named g).2 := by
  induction names generalizing named g with
  | nil => exact hg
  | cons name names ih =>
    rw [List.foldlM_cons]
    exact ih (proper_reserveType name hg)

theorem proper_defineTypes (schema : Introspection) (names : List String) (hg : Proper named g) :
    Proper named (names.forM (defineType schema named) g).2 := by
  induction names generalizing g with
  | nil => exact hg
  | cons name names ih =>
    exact ih (proper_defineType schema name hg)

/-! ## Definitions -/

/-- The operation that passes queries through. -/
theorem builds_passThrough (hg : Proper named g) : Builds named Operation.types passThrough g := by
  have hprimitive : Builds named (fun id => [id]) (add (.primitive .string)) g :=
    builds_add _ hg (List.forall_mem_nil _) trivial
  have hunknown {g : TypeGraph} (hg : Proper named g) :
      Builds named (fun id => [id]) (add .unknown) g :=
    builds_add _ hg (List.forall_mem_nil _) trivial
  rw [passThrough]
  refine hprimitive.bind fun query h hh _ hquery => ?_
  refine (hunknown hh).bind fun any i hi hhi hany => ?_
  refine (builds_add (.map any) hi hany trivial).bind fun values j hj hij hvalues => ?_
  refine (builds_add (.object _) hj ?_ trivial).bind fun body k hk _ hbody => ?_
  · refine List.forall_mem_cons.2 ⟨?_, hvalues⟩
    exact Nat.lt_of_lt_of_le (hquery query List.mem_cons_self) (Nat.le_trans hhi hij)
  refine (hunknown hk).bind fun data l hl hkl hdata => ?_
  refine (hunknown hl).bind fun error m hm hlm herror => ?_
  refine (builds_add (.array error) hm herror trivial).bind fun errors n hn hmn herrors => ?_
  refine (builds_add (.object _) hn ?_ trivial).bind fun response o ho hno hresponse =>
    builds_pure ho ?_
  · refine List.forall_mem_cons.2 ⟨?_, herrors⟩
    exact Nat.lt_of_lt_of_le (hdata data List.mem_cons_self) (Nat.le_trans hlm hmn)
  · refine List.forall_mem_cons.2 ⟨?_, hresponse⟩
    refine Nat.lt_of_lt_of_le (hbody body List.mem_cons_self) ?_
    exact Nat.le_trans hkl (Nat.le_trans hlm (Nat.le_trans hmn hno))

theorem proper_empty : Proper [] TypeGraph.empty where
  grown := .empty
  declared := fun _ _ h => absurd (TypeGraph.lt_of_nameOf h) (Nat.not_lt_zero _)
  named := fun _ _ h => nomatch h
  numbers := fun _ => by
    rw [TypeGraph.kind_of_size_le (Nat.zero_le _)]
    trivial

/-- The graph of a GraphQL schema is in order, and so is what the operation refers to. -/
theorem builds_buildDefinition (schema : Introspection) :
    ∃ named, Builds named Operation.types (buildDefinition schema) TypeGraph.empty := by
  have hreserved := proper_reserveTypes (reachable schema) proper_empty
  have hdefined := proper_defineTypes schema (reachable schema) hreserved
  have hlast := builds_passThrough hdefined
  exact ⟨_, hlast.proper, Nat.zero_le _, hlast.lt⟩

/-- The status of the answer has 16 bits. -/
theorem codesFit_passThrough (g : TypeGraph) : (passThrough g).1.CodesFit := by
  refine List.forall_mem_singleton.2 fun code hcode => ?_
  cases hcode
  decide

theorem codesFit_buildDefinition (schema : Introspection) (g : TypeGraph) :
    (buildDefinition schema g).1.CodesFit := by
  let reserved := (reachable schema).foldlM reserveType [] g
  exact codesFit_passThrough ((reachable schema).forM (defineType schema reserved.1) reserved.2).2

/-- A definition has the graph that is built and the operation alone. -/
theorem built_of_introspection {schema : Introspection} {api : Definition}
    (h : schema.toDefinition = .ok api) :
    api.types = (buildDefinition schema TypeGraph.empty).2 ∧
      api.operations = [(buildDefinition schema TypeGraph.empty).1] := by
  rw [Introspection.toDefinition] at h
  split at h
  · cases h
  · cases h
    exact ⟨rfl, rfl⟩

/-- **The graph of a GraphQL schema can be declared** if no type is a choice among nothing, and the
codes of its responses have 16 bits. -/
theorem declarable_of_introspection {schema : Introspection} {api : Definition}
    (h : schema.toDefinition = .ok api) (hoffers : ∀ id, (api.types.kind id).Offers) :
    Declarable api.types ∧ ∀ op ∈ api.operations, op.CodesFit := by
  obtain ⟨htypes, hoperations⟩ := built_of_introspection h
  obtain ⟨_, hall, -, -⟩ := builds_buildDefinition schema
  rw [← htypes] at hall
  rw [hoperations]
  refine ⟨⟨hall.grown, hall.declared, hoffers, hall.numbers⟩, List.forall_mem_singleton.2 ?_⟩
  exact codesFit_buildDefinition schema TypeGraph.empty

/-- **The graph of a GraphQL schema is in order**, whatever the schema says, and the operation
refers to nodes of it. -/
theorem grown_of_introspection {schema : Introspection} {api : Definition}
    (h : schema.toDefinition = .ok api) :
    api.types.Grown ∧ ∀ op ∈ api.operations, ∀ id ∈ op.types, id < api.types.size := by
  obtain ⟨htypes, hoperations⟩ := built_of_introspection h
  obtain ⟨_, hall⟩ := builds_buildDefinition schema
  rw [htypes, hoperations]
  exact ⟨hall.proper.grown, List.forall_mem_singleton.2 hall.lt⟩

end TypedClient.GraphQl
