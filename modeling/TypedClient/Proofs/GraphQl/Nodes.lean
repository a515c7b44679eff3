import TypedClient.Proofs.GraphQl.Building
import TypedClient.Proofs.GraphQl.Reachability
import TypedClient.Proofs.Lists

/-!
# The nodes of a GraphQL schema

Every type that can be reached has a node of its own, which says what the schema says of the type,
and no other node has a name (`toDefinition_represents`).

* `TypedAs` says which node a reference leads to, and `Shaped` what the node of a type is;
* `Represents` says this of all types, given which of them have nodes;
* `Adding` is the rule for steps that add nodes without a name: nothing else changes (`Adds`).

Types are reached along types that have nodes themselves.  `not_represents_every_linked` shows a
type that can be reached only along one that has none.
-/

set_option autoImplicit false

namespace TypedClient.GraphQl

open TypedClient.Types

variable {α β : Type} {g h k : TypeGraph} {named : Dict TypeId} {node : String → Option TypeId}
  {schema : Introspection} {id : TypeId} {kind : TypeKind} {name : String}

/-! ## What nodes say -/

/-- The shape of a type that has no node: those of the language are scalars, and of others nothing
is known. -/
inductive BuiltIn : String → TypeKind → Prop
  /-- Texts are strings. -/
  | string : BuiltIn "String" (.primitive .string)
  /-- So are ids. -/
  | id : BuiltIn "ID" (.primitive .string)
  /-- Integers are numbers. -/
  | int : BuiltIn "Int" (.primitive .number)
  /-- So are doubles. -/
  | float : BuiltIn "Float" (.primitive .number)
  /-- Truth values are booleans. -/
  | boolean : BuiltIn "Boolean" (.primitive .boolean)
  /-- Of other types nothing is known. -/
  | other {name : String} (h : name ∉ ["String", "ID", "Int", "Float", "Boolean"]) :
      BuiltIn name .unknown

theorem builtIn_scalarKind (name : String) : BuiltIn name (scalarKind name) := by
  rw [scalarKind.eq_def]
  split
  · exact .string
  · exact .id
  · exact .int
  · exact .float
  · exact .boolean
  · exact .other (by simp_all)

/-- The node of a reference, given the nodes of types. -/
inductive TypedAs (g : TypeGraph) (node : String → Option TypeId) : TypeRef → TypeId → Prop
  /-- That null is excluded leaves no trace. -/
  | nonNull {inner : TypeRef} {id : TypeId} (h : TypedAs g node inner id) :
      TypedAs g node (.wrapping .nonNull none inner) id
  /-- A list is an array. -/
  | list {inner : TypeRef} {item id : TypeId} (h : TypedAs g node inner item)
      (hid : IsAnonymous g id (.array item)) : TypedAs g node (.wrapping .list none inner) id
  /-- The name is that of a type with a node. -/
  | node {kind : Kind} {name : String} {id : TypeId} (h : node name = some id) :
      TypedAs g node (.plain kind (some name)) id
  /-- The name is that of another type. -/
  | builtIn {kind : Kind} {name : String} {id : TypeId} {shape : TypeKind} (h : node name = none)
      (hshape : BuiltIn name shape) (hid : IsAnonymous g id shape) :
      TypedAs g node (.plain kind (some name)) id

/-- A field for a declaration of the given name and type. -/
structure FieldFor (g : TypeGraph) (node : String → Option TypeId) (name : String) (type : TypeRef)
    (field : Field) : Prop where
  /-- It has the name. -/
  name_eq : field.name = name
  /-- It is required just if the outermost wrapper excludes null. -/
  required_iff : field.required = true ↔ type.kind = .nonNull
  /-- It has the type. -/
  typed : TypedAs g node type field.type

/-- The shape of the node of a type. -/
inductive Shaped (g : TypeGraph) (node : String → Option TypeId) (t : DeclaredType) :
    TypeKind → Prop
  /-- An object or interface has its fields, in order. -/
  | object {fields : List Field} (hkind : t.kind = .object ∨ t.kind = .interface)
      (h : List.Forall₂ (fun f => FieldFor g node f.name f.type) t.fields fields) :
      Shaped g node t (.object fields)
  /-- So has an input object. -/
  | input {fields : List Field} (hkind : t.kind = .inputObject)
      (h : List.Forall₂ (fun f => FieldFor g node f.name f.type) t.inputFields fields) :
      Shaped g node t (.object fields)
  /-- An enumeration has its values. -/
  | enumeration (hkind : t.kind = .enumeration) :
      Shaped g node t (.enumeration (t.values.map .string))
  /-- A union has its members. -/
  | union {members : List TypeId} (hkind : t.kind = .union)
      (h : List.Forall₂ (TypedAs g node) t.possibleTypes members) : Shaped g node t (.union members)
  /-- Other kinds are not declared; nothing is known of them. -/
  | other (hkind : t.kind = .scalar ∨ t.kind = .list ∨ t.kind = .nonNull) : Shaped g node t .unknown

/-- The types have nodes of their own, and nothing else has a node with a name. -/
structure Represents (schema : Introspection) (types : String → DeclaredType → Prop) (g : TypeGraph)
    (node : String → Option TypeId) : Prop where
  /-- The types have nodes. -/
  node_iff : ∀ name, (∃ id, node name = some id) ↔ ∃ t, types name t
  /-- No two types have the same node. -/
  injective : ∀ name other id, node name = some id → node other = some id → name = other
  /-- The nodes of types are those that have names. -/
  named_iff : ∀ id, (∃ text, g.nameOf id = some text) ↔ ∃ name, node name = some id
  /-- No two nodes have the same name. -/
  distinct : ∀ id other text, g.nameOf id = some text → g.nameOf other = some text → id = other
  /-- The nodes have the shapes of the types. -/
  shaped : ∀ name t id, types name t → node name = some id → Shaped g node t (g.kind id)
  /-- Whatever a type refers to that may have a node has one. -/
  resolved : ∀ owner u r name t, types owner u → u.Mentions r → r.Refers name →
    schema.Admits name t → ∃ id, node name = some id

/-! ## Adding nodes -/

/-- The graph has kept all nodes, and the new ones have no names. -/
structure Adds (g h : TypeGraph) : Prop where
  /-- All nodes are kept. -/
  extended : g.Extends h
  /-- There are no new names. -/
  nameOf_eq : ∀ id, h.nameOf id = g.nameOf id
  /-- Names are found where they were. -/
  lookup_eq : ∀ name, h.lookup name = g.lookup name

theorem Adds.refl (g : TypeGraph) : Adds g g := ⟨.refl g, fun _ => rfl, fun _ => rfl⟩

theorem Adds.trans (hgh : Adds g h) (hhk : Adds h k) : Adds g k :=
  ⟨hgh.extended.trans hhk.extended, fun id => (hhk.nameOf_eq id).trans (hgh.nameOf_eq id),
    fun name => (hhk.lookup_eq name).trans (hgh.lookup_eq name)⟩

theorem adds_add (g : TypeGraph) (kind : TypeKind) : Adds g (g.add kind) := by
  refine ⟨TypeGraph.extends_add g kind, fun id => ?_, fun _ => rfl⟩
  rcases Nat.lt_or_ge id g.size with hid | hid
  · exact (TypeGraph.extends_add g kind).nameOf_eq hid
  · rw [TypeGraph.nameOf_add_of_size_le hid, TypeGraph.nameOf_of_size_le hid]

/-- The graph has kept all nodes but for the shapes of those that have names. -/
structure Reshapes (g h : TypeGraph) : Prop where
  /-- There are no fewer nodes. -/
  size_le : g.size ≤ h.size
  /-- Names are the same. -/
  nameOf_eq : ∀ id, h.nameOf id = g.nameOf id
  /-- So are the shapes of nodes without a name. -/
  kind_eq : ∀ id < g.size, g.nameOf id = none → h.kind id = g.kind id

theorem Adds.reshapes (hgh : Adds g h) : Reshapes g h :=
  ⟨hgh.extended.size_le, hgh.nameOf_eq, fun _ hid _ => hgh.extended.kind_eq hid⟩

theorem Reshapes.refl (g : TypeGraph) : Reshapes g g := (Adds.refl g).reshapes

theorem Reshapes.trans (hgh : Reshapes g h) (hhk : Reshapes h k) : Reshapes g k := by
  refine ⟨Nat.le_trans hgh.size_le hhk.size_le,
    fun id => (hhk.nameOf_eq id).trans (hgh.nameOf_eq id), fun id hid hnone => ?_⟩
  rw [hhk.kind_eq id (Nat.lt_of_lt_of_le hid hgh.size_le) ((hgh.nameOf_eq id).trans hnone),
    hgh.kind_eq id hid hnone]

theorem reshapes_define (hname : g.nameOf id ≠ none) (kind : TypeKind) (text : Option String) :
    Reshapes g ((g.setKind id kind).setDescription id text) := by
  refine ⟨by rw [TypeGraph.size_setDescription, TypeGraph.size_setKind], fun other => by
    rw [TypeGraph.nameOf_setDescription, TypeGraph.nameOf_setKind], fun other _ hnone => ?_⟩
  have hne : other ≠ id := fun heq => hname (heq ▸ hnone)
  rw [TypeGraph.kind_setDescription, TypeGraph.kind_setKind_of_ne g hne]

theorem Reshapes.isAnonymous (hgh : Reshapes g h) (hid : IsAnonymous g id kind) :
    IsAnonymous h id kind :=
  ⟨Nat.lt_of_lt_of_le hid.lt hgh.size_le, (hgh.nameOf_eq id).trans hid.nameOf,
    (hgh.kind_eq id hid.lt hid.nameOf).trans hid.kind⟩

theorem TypedAs.mono {r : TypeRef} (hr : TypedAs g node r id) (hgh : Reshapes g h) :
    TypedAs h node r id := by
  induction hr with
  | nonNull _ ih => exact .nonNull ih
  | list _ hid ih => exact .list ih (hgh.isAnonymous hid)
  | node hname => exact .node hname
  | builtIn hnone hshape hid => exact .builtIn hnone hshape (hgh.isAnonymous hid)

theorem FieldFor.mono {type : TypeRef} {field : Field} (hf : FieldFor g node name type field)
    (hgh : Reshapes g h) : FieldFor h node name type field :=
  ⟨hf.name_eq, hf.required_iff, hf.typed.mono hgh⟩

theorem Shaped.mono {t : DeclaredType} (ht : Shaped g node t kind) (hgh : Reshapes g h) :
    Shaped h node t kind := by
  cases ht with
  | object hkind hfields =>
    exact .object hkind (forall₂_mono hfields fun _ _ _ _ hf => hf.mono hgh)
  | input hkind hfields =>
    exact .input hkind (forall₂_mono hfields fun _ _ _ _ hf => hf.mono hgh)
  | enumeration hkind => exact .enumeration hkind
  | union hkind hmembers =>
    exact .union hkind (forall₂_mono hmembers fun _ _ _ _ hr => hr.mono hgh)
  | other hkind => exact .other hkind

/-- The step adds nodes without names, and its result has to do with the graph it leads to. -/
def Adding (P : TypeGraph → α → Prop) (m : Build α) : Prop :=
  ∀ g, Adds g (m g).2 ∧ P (m g).2 (m g).1

theorem adding_pure {P : TypeGraph → α → Prop} {a : α} (h : ∀ g, P g a) :
    Adding P (pure a : Build α) := fun g => ⟨.refl g, h g⟩

theorem adding_add (kind : TypeKind) : Adding (fun g id => IsAnonymous g id kind) (add kind) :=
  fun g => ⟨adds_add g kind, TypeGraph.isAnonymous_add g kind⟩

theorem Adding.mono {P Q : TypeGraph → α → Prop} {m : Build α} (hm : Adding P m)
    (hPQ : ∀ g a, P g a → Q g a) : Adding Q m := fun g => ⟨(hm g).1, hPQ _ _ (hm g).2⟩

/-- Two steps in a row; the second may rely on what the first has found. -/
theorem Adding.bind {P : TypeGraph → α → Prop} {Q : TypeGraph → β → Prop} {m : Build α}
    {f : α → Build β} (hm : Adding P m)
    (hf : ∀ g a, P g a → Adds g (f a g).2 ∧ Q (f a g).2 (f a g).1) : Adding Q (m >>= f) := by
  intro g
  obtain ⟨hadds, ha⟩ := hm g
  obtain ⟨hadds', hb⟩ := hf _ _ ha
  exact ⟨hadds.trans hadds', hb⟩

/-- Two steps in a row of which the second does not rely on the first. -/
theorem Adding.next {P : TypeGraph → α → Prop} {Q : TypeGraph → β → Prop} {m : Build α}
    {f : α → Build β} (hm : Adding P m) (hf : ∀ a, Adding Q (f a)) : Adding Q (m >>= f) :=
  hm.bind fun g a _ => hf a g

theorem Adding.mapM {P : α → TypeGraph → β → Prop} {f : α → Build β} {xs : List α}
    (hf : ∀ x ∈ xs, Adding (P x) (f x))
    (hP : ∀ {x g h b}, P x g b → Adds g h → P x h b) :
    Adding (fun g => List.Forall₂ (fun x => P x g) xs) (xs.mapM f) := by
  induction xs with
  | nil => exact adding_pure fun _ => .nil
  | cons x xs ih =>
    obtain ⟨hfirst, hrest⟩ := List.forall_mem_cons.1 hf
    rw [List.mapM_cons]
    refine hfirst.bind fun g b hb => ?_
    obtain ⟨hadds, hbs⟩ := ih hrest g
    exact ⟨hadds, .cons (hP hb hadds) hbs⟩

/-! ## Shapes -/

theorem adding_placeName (named : Dict TypeId) (name : String) (kind : Kind) :
    Adding (fun g => TypedAs g (Dict.get? named) (.plain kind (some name)))
      (placeName named (some name)) := by
  rw [placeName]
  cases hname : Dict.get? named name with
  | some id => exact adding_pure fun _ => .node hname
  | none =>
    exact (adding_add (scalarKind name)).mono fun _ _ hid =>
      .builtIn hname (builtIn_scalarKind name) hid

theorem adding_placeName_true (named : Dict TypeId) (name : Option String) :
    Adding (fun _ _ => True) (placeName named name) := by
  cases name with
  | none => exact (adding_add .unknown).mono fun _ _ _ => trivial
  | some name => exact (adding_placeName named name .scalar).mono fun _ _ _ => trivial

/-- A reference gets the node it leads to, if it is in form. -/
theorem adding_placeReference (named : Dict TypeId) (r : TypeRef) :
    Adding (fun g id => r.WellFormed → TypedAs g (Dict.get? named) r id)
      (placeReference named r) := by
  have hnamed {name : Option String} {r : TypeRef} (hr : ¬r.WellFormed) :
      Adding (fun g id => r.WellFormed → TypedAs g (Dict.get? named) r id) (placeName named name) :=
    (adding_placeName_true named name).mono fun _ _ _ h => absurd h hr
  induction r with
  | plain kind name =>
    rw [placeReference]
    cases name with
    | none => exact hnamed fun h => by cases h
    | some name => exact (adding_placeName named name kind).mono fun _ _ hid _ => hid
  | wrapping kind name inner ih =>
    rw [placeReference.eq_def]
    split
    · rename_i heq
      cases heq
      exact ih.mono fun _ _ hid h => by
        cases h with
        | wrapping _ h => exact .nonNull (hid h)
    · rename_i heq
      cases heq
      refine ih.bind fun g item hitem => ?_
      have hadds := adds_add g (.array item)
      refine ⟨hadds, fun h => ?_⟩
      cases h with
      | wrapping _ h =>
        exact .list ((hitem h).mono hadds.reshapes) (TypeGraph.isAnonymous_add g (.array item))
    · rename_i hnonNull hlist heq
      cases heq
      refine hnamed fun h => ?_
      cases h with
      | wrapping hkind =>
        rcases hkind with rfl | rfl
        · exact hlist rfl
        · exact hnonNull rfl
    · rename_i heq
      cases heq

theorem adding_placeField (named : Dict TypeId) (name : String) (description : Option String)
    (type : TypeRef) :
    Adding (fun g field => type.WellFormed → FieldFor g (Dict.get? named) name type field)
      (placeField named name description type) := by
  rw [placeField]
  refine (adding_placeReference named type).bind fun g id hid => ?_
  exact ⟨.refl g, fun h => ⟨rfl, decide_eq_true_iff, hid h⟩⟩

/-- A type whose references are in form gets its shape. -/
theorem adding_shapeOf (named : Dict TypeId) (t : DeclaredType) :
    Adding (fun g kind => (∀ r, t.Mentions r → r.WellFormed) → Shaped g (Dict.get? named) t kind)
      (shapeOf named t) := by
  have hobject {γ : Type} {name : γ → String} {description : γ → Option String} {type : γ → TypeRef}
      {xs : List γ} (hxs : ∀ x ∈ xs, t.Mentions (type x))
      (hshaped : ∀ {g : TypeGraph} {fields : List Field},
        List.Forall₂ (fun x => FieldFor g (Dict.get? named) (name x) (type x)) xs fields →
          Shaped g (Dict.get? named) t (.object fields)) :
      Adding (fun g kind => (∀ r, t.Mentions r → r.WellFormed) →
          Shaped g (Dict.get? named) t kind) (do
        return .object
          (← xs.mapM fun x => placeField named (name x) (description x) (type x))) := by
    refine (Adding.mapM (fun x _ => adding_placeField named (name x) (description x) (type x))
      fun hf hadds h => (hf h).mono hadds.reshapes).bind fun g _ hfields => ⟨.refl g, fun h => ?_⟩
    exact hshaped (forall₂_mono hfields fun x hx _ _ hf => hf (h _ (hxs x hx)))
  rw [shapeOf.eq_def]
  cases hkind : t.kind with
  | object => exact hobject (fun f hf => .field hf) fun hfields => .object (.inl hkind) hfields
  | interface => exact hobject (fun f hf => .field hf) fun hfields => .object (.inr hkind) hfields
  | inputObject => exact hobject (fun f hf => .inputField hf) fun hfields => .input hkind hfields
  | enumeration => exact adding_pure fun _ _ => .enumeration hkind
  | union =>
    refine (Adding.mapM (fun r _ => adding_placeReference named r)
      fun hr hadds h => (hr h).mono hadds.reshapes).bind fun g _ hids => ⟨.refl g, fun h => ?_⟩
    exact .union hkind (forall₂_mono hids fun r hr _ _ hid => hid (h r (.possibleType hr)))
  | scalar => exact adding_pure fun _ _ => .other (.inl hkind)
  | list => exact adding_pure fun _ _ => .other (.inr (.inl hkind))
  | nonNull => exact adding_pure fun _ _ => .other (.inr (.inr hkind))

/-! ## Reserving nodes -/

/-- The given types have nodes, and no other nodes have names. -/
structure Reserved (names : List String) (named : Dict TypeId) (g : TypeGraph) : Prop where
  /-- The graph is in order. -/
  grown : g.Grown
  /-- The types have nodes. -/
  node_iff : ∀ name, (∃ id, Dict.get? named name = some id) ↔ name ∈ names
  /-- No two types have the same node. -/
  injective : ∀ name other id, Dict.get? named name = some id → Dict.get? named other = some id →
    name = other
  /-- The nodes of types are those that have names. -/
  named_iff : ∀ id, (∃ text, g.nameOf id = some text) ↔ ∃ name, Dict.get? named name = some id

theorem reserved_empty : Reserved [] [] TypeGraph.empty where
  grown := .empty
  node_iff := fun _ => by simp
  injective := fun _ _ _ h => nomatch h
  named_iff := fun id => by
    refine iff_of_false (fun ⟨_, htext⟩ => ?_) fun ⟨_, h⟩ => nomatch h
    exact absurd (TypeGraph.lt_of_nameOf htext) (Nat.not_lt_zero _)

theorem Reserved.lt {names : List String} (h : Reserved names named g)
    (hid : Dict.get? named name = some id) : id < g.size := by
  obtain ⟨_, htext⟩ := (h.named_iff id).2 ⟨name, hid⟩
  exact TypeGraph.lt_of_nameOf htext

/-- Another type gets a node behind the others. -/
theorem Reserved.reserve {names : List String} (h : Reserved names named g) (hname : name ∉ names) :
    Reserved (names ++ [name]) (reserveType named name g).1 (reserveType named name g).2 := by
  have hnone := Naming.lookup_uniqueName g (Naming.typeName name)
  rw [reserveType_eq]
  have hold {other : String} {id : TypeId} (hid : Dict.get? named other = some id) :
      other ≠ name := by
    rintro rfl
    exact hname ((h.node_iff _).1 ⟨id, hid⟩)
  refine ⟨h.grown.reserve _, fun other => ?_, fun first second id hfirst hsecond => ?_,
    fun id => ?_⟩
  · simp only [Dict.get?_insert_eq_some_iff, List.mem_append, List.mem_singleton]
    constructor
    · rintro ⟨id, ⟨heq, -⟩ | ⟨-, hid⟩⟩
      · exact .inr heq
      · exact .inl ((h.node_iff other).1 ⟨id, hid⟩)
    · rintro (hother | heq)
      · obtain ⟨id, hid⟩ := (h.node_iff other).2 hother
        exact ⟨id, .inr ⟨hold hid, hid⟩⟩
      · exact ⟨g.size, .inl ⟨heq, rfl⟩⟩
  · rcases Dict.get?_insert_eq_some_iff.1 hfirst with ⟨rfl, rfl⟩ | ⟨-, hfirst⟩ <;>
      rcases Dict.get?_insert_eq_some_iff.1 hsecond with ⟨heq, hid⟩ | ⟨-, hsecond⟩
    · exact heq.symm
    · exact absurd (h.lt hsecond) (Nat.lt_irrefl _)
    · exact absurd (h.lt (hid ▸ hfirst)) (Nat.lt_irrefl _)
    · exact h.injective first second id hfirst hsecond
  · simp only [Dict.get?_insert_eq_some_iff, TypeGraph.nameOf_reserve_eq_some_iff hnone]
    constructor
    · rintro ⟨text, ⟨rfl, -⟩ | htext⟩
      · exact ⟨name, .inl ⟨rfl, rfl⟩⟩
      · obtain ⟨other, hid⟩ := (h.named_iff id).1 ⟨text, htext⟩
        exact ⟨other, .inr ⟨hold hid, hid⟩⟩
    · rintro ⟨other, ⟨-, rfl⟩ | ⟨-, hid⟩⟩
      · exact ⟨_, .inl ⟨rfl, rfl⟩⟩
      · obtain ⟨text, htext⟩ := (h.named_iff id).2 ⟨other, hid⟩
        exact ⟨text, .inr htext⟩

theorem Reserved.reserveAll {names done : List String} (h : Reserved done named g)
    (hnodup : (done ++ names).Nodup) :
    Reserved (done ++ names) (names.foldlM reserveType named g).1
      (names.foldlM reserveType named g).2 := by
  induction names generalizing done named g with
  | nil => rwa [List.append_nil]
  | cons name names ih =>
    have hname : name ∉ done := fun hmem =>
      (List.nodup_append.1 hnodup).2.2 name hmem name List.mem_cons_self rfl
    rw [List.append_cons] at hnodup ⊢
    rw [List.foldlM_cons]
    exact ih (h.reserve hname) hnodup

/-! ## Giving nodes their shapes -/

/-- The nodes of the types have their shapes. -/
def ShapedAll (schema : Introspection) (named : Dict TypeId) (names : List String) (g : TypeGraph) :
    Prop :=
  ∀ name ∈ names, ∀ t id, schema.Declares name t → Dict.get? named name = some id →
    Shaped g (Dict.get? named) t (g.kind id)

/-- The names that have been reserved, whatever has become of the shapes. -/
structure Keeping (names : List String) (named : Dict TypeId) (g h : TypeGraph) : Prop where
  /-- At first these had nodes. -/
  reserved : Reserved names named g
  /-- Nothing but shapes of types has changed. -/
  reshapes : Reshapes g h

theorem Keeping.nameOf_ne_none {names : List String} (h' : Keeping names named g h)
    (hid : Dict.get? named name = some id) : h.nameOf id ≠ none := by
  obtain ⟨text, htext⟩ := (h'.reserved.named_iff id).2 ⟨name, hid⟩
  rw [h'.reshapes.nameOf_eq, htext]
  exact Option.some_ne_none _

theorem Keeping.lt {names : List String} (h' : Keeping names named g h)
    (hid : Dict.get? named name = some id) : id < h.size := by
  obtain ⟨_, htext⟩ := Option.ne_none_iff_exists'.1 (h'.nameOf_ne_none hid)
  exact TypeGraph.lt_of_nameOf htext

/-- The node of a type gets its shape, and those of others keep theirs. -/
theorem shapedAll_of_some (hschema : schema.WellFormed) {names done : List String}
    {type : DeclaredType} (hkeeping : Keeping names named g h)
    (hdone : ShapedAll schema named done h) (hname : name ∉ done)
    (htype : schema.find? name = some type) (hnode : Dict.get? named name = some id) :
    Keeping names named g (defineType schema named name h).2 ∧
      ShapedAll schema named (done ++ [name]) (defineType schema named name h).2 := by
  have hdeclares := (Introspection.find?_eq_some_iff hschema).1 htype
  obtain ⟨hadds, hshaped⟩ := adding_shapeOf named type h
  replace hshaped := hshaped fun r => hschema.references type hdeclares.mem r
  rw [defineType_of_some htype hnode]
  generalize (shapeOf named type h).1 = kind at hshaped
  generalize (shapeOf named type h).2 = last at hadds hshaped
  have hkept : Keeping names named g last :=
    ⟨hkeeping.reserved, hkeeping.reshapes.trans hadds.reshapes⟩
  have hreshapes := reshapes_define (hkept.nameOf_ne_none hnode) kind type.description
  refine ⟨⟨hkeeping.reserved, hkept.reshapes.trans hreshapes⟩,
    fun other hother t target ht hid => ?_⟩
  rw [TypeGraph.kind_setDescription]
  rcases List.mem_append.1 hother with hother | hother
  · have hne : target ≠ id := by
      rintro rfl
      exact hname (hkeeping.reserved.injective other name target hid hnode ▸ hother)
    rw [TypeGraph.kind_setKind_of_ne last hne, hadds.extended.kind_eq (hkeeping.lt hid)]
    exact (hdone other hother t target ht hid).mono (hadds.reshapes.trans hreshapes)
  · obtain rfl := List.mem_singleton.1 hother
    obtain rfl : id = target := Option.some.inj (hnode.symm.trans hid)
    obtain rfl : type = t := Option.some.inj
      (htype.symm.trans ((Introspection.find?_eq_some_iff hschema).2 ht))
    rw [TypeGraph.kind_setKind_self (hkept.lt hnode)]
    exact hshaped.mono hreshapes

/-- One more type gets its shape, and the others keep theirs. -/
theorem shapedAll_defineType (hschema : schema.WellFormed) {names done : List String}
    (hkeeping : Keeping names named g h) (hdone : ShapedAll schema named done h)
    (hname : name ∉ done) :
    Keeping names named g (defineType schema named name h).2 ∧
      ShapedAll schema named (done ++ [name]) (defineType schema named name h).2 := by
  have hnothing (hnone : schema.find? name = none ∨ Dict.get? named name = none) :
      Keeping names named g (defineType schema named name h).2 ∧
        ShapedAll schema named (done ++ [name]) (defineType schema named name h).2 := by
    rw [defineType_of_none hnone]
    refine ⟨hkeeping, fun other hother t id ht hid => ?_⟩
    rcases List.mem_append.1 hother with hother | hother
    · exact hdone other hother t id ht hid
    · obtain rfl := List.mem_singleton.1 hother
      rcases hnone with hnone | hnone
      · cases hnone.symm.trans ((Introspection.find?_eq_some_iff hschema).2 ht)
      · cases hnone.symm.trans hid
  cases htype : schema.find? name with
  | none => exact hnothing (.inl htype)
  | some type =>
    cases hnode : Dict.get? named name with
    | none => exact hnothing (.inr hnode)
    | some id => exact shapedAll_of_some hschema hkeeping hdone hname htype hnode

theorem shapedAll_defineTypes (hschema : schema.WellFormed) {names others done : List String}
    (hkeeping : Keeping names named g h) (hdone : ShapedAll schema named done h)
    (hnodup : (done ++ others).Nodup) :
    Keeping names named g (others.forM (defineType schema named) h).2 ∧
      ShapedAll schema named (done ++ others) (others.forM (defineType schema named) h).2 := by
  induction others generalizing done h with
  | nil =>
    rw [List.append_nil]
    exact ⟨hkeeping, hdone⟩
  | cons name others ih =>
    have hname : name ∉ done := fun hmem =>
      (List.nodup_append.1 hnodup).2.2 name hmem name List.mem_cons_self rfl
    rw [List.append_cons] at hnodup ⊢
    obtain ⟨hkeeping', hdone'⟩ := shapedAll_defineType hschema hkeeping hdone hname
    exact ih hkeeping' hdone' hnodup

/-! ## Definitions -/

theorem adding_passThrough : Adding (fun _ _ => True) passThrough := by
  have hadd (kind : TypeKind) {β : Type} {f : TypeId → Build β}
      (hf : ∀ id, Adding (fun _ _ => True) (f id)) : Adding (fun _ _ => True) (add kind >>= f) :=
    (adding_add kind).next hf
  exact hadd _ fun _ =>
    hadd _ fun _ => hadd _ fun _ => hadd _ fun _ => hadd _ fun _ => hadd _ fun _ =>
    hadd _ fun _ => hadd _ fun _ => adding_pure fun _ => trivial

/-- The graph is built in three layers: nodes are reserved, then shaped, and then those of the
operation are added. -/
theorem exists_layers (hschema : schema.WellFormed) : ∃ named first shaped,
    Reserved (reachable schema) named first ∧ Reshapes first shaped ∧
      ShapedAll schema named (reachable schema) shaped ∧
        Adds shaped (buildDefinition schema TypeGraph.empty).2 := by
  have hnodup := nodup_reachable schema
  have hreserved := reserved_empty.reserveAll hnodup
  have hfirst : ShapedAll schema ((reachable schema).foldlM reserveType [] TypeGraph.empty).1 []
      ((reachable schema).foldlM reserveType [] TypeGraph.empty).2 :=
    fun _ hname => absurd hname List.not_mem_nil
  obtain ⟨hkeeping, hshaped⟩ := shapedAll_defineTypes hschema ⟨hreserved, .refl _⟩ hfirst hnodup
  exact ⟨_, _, _, hreserved, hkeeping.reshapes, hshaped, (adding_passThrough _).1⟩

/-- The graph that is built represents the types that can be reached along types with nodes. -/
theorem represents_buildDefinition (hschema : schema.WellFormed) : ∃ node, Represents schema
    (schema.Reached schema.Admits) (buildDefinition schema TypeGraph.empty).2 node := by
  obtain ⟨named, first, shaped, hreserved, hreshapes, hshaped, hadds⟩ := exists_layers hschema
  obtain ⟨_, hproper, -, -⟩ := builds_buildDefinition schema
  have hsound := hproper.grown.toSound
  have hnode (name : String) : (∃ id, Dict.get? named name = some id) ↔
      ∃ t, schema.Reached schema.Admits name t := by
    rw [hreserved.node_iff, mem_reachable_iff hschema]
  refine ⟨Dict.get? named, hnode, hreserved.injective, fun id => ?_,
    fun id other text hid hother => ?_,
    fun name t id ht hid => ?_, fun owner u r name t hu hr hname ht => ?_⟩
  · rw [hadds.nameOf_eq, hreshapes.nameOf_eq, hreserved.named_iff]
  · have hlookup := hsound.lookup_of_nameOf (TypeGraph.lt_of_nameOf hid) hid
    rw [hsound.lookup_of_nameOf (TypeGraph.lt_of_nameOf hother) hother] at hlookup
    exact (Option.some.inj hlookup).symm
  · have hlt : id < shaped.size := Nat.lt_of_lt_of_le (hreserved.lt hid) hreshapes.size_le
    rw [hadds.extended.kind_eq hlt]
    exact (hshaped name ((hreserved.node_iff name).1 ⟨id, hid⟩) t id ht.own.toDeclares hid).mono
      hadds.reshapes
  · exact (hnode name).2 ⟨t, .reference hu hr hname ht⟩

/-- **Types have nodes**: a schema with a type of queries or mutations has a definition, and of the
nodes with names there is one for every type that can be reached along such types, with the fields
of the type. -/
theorem toDefinition_represents (hroot : schema.queryType ≠ none ∨ schema.mutationType ≠ none)
    (hschema : schema.WellFormed) : ∃ api node, schema.toDefinition = .ok api ∧
      Represents schema (schema.Reached schema.Admits) api.types node := by
  obtain ⟨node, hnode⟩ := represents_buildDefinition hschema
  have hnot : ¬(schema.queryType.isNone && schema.mutationType.isNone) = true := by
    rw [Bool.and_eq_true, Option.isNone_iff_eq_none, Option.isNone_iff_eq_none]
    exact fun h => hroot.elim (fun hquery => hquery h.1) fun hmutation => hmutation h.2
  rw [Introspection.toDefinition, if_neg hnot]
  exact ⟨_, node, rfl, hnode⟩

/-- An object type. -/
def objectType (name : String) (fields : List FieldDef) : DeclaredType :=
  ⟨.object, some name, none, fields, [], [], [], []⟩

/-- A schema with a type of queries. -/
def querySchema (types : List DeclaredType) : Introspection :=
  ⟨none, some "Query", none, none, types⟩

/-- The queries for a film. -/
def filmQueries : DeclaredType :=
  objectType "Query"
    [⟨"film", none, [⟨"id", none, .wrapping .nonNull none (.plain .scalar (some "ID"))⟩],
      .plain .object (some "Film")⟩]

/-- A film, and those that follow it. -/
def film : DeclaredType :=
  objectType "Film" [⟨"title", none, [], .wrapping .nonNull none (.plain .scalar (some "String"))⟩,
    ⟨"sequels", none, [], .wrapping .list none (.plain .object (some "Film"))⟩]

/-- A film has a node with a required title and sequels. -/
theorem toDefinition_represents_films :
    let schema := querySchema [filmQueries, film]
    ((schema.queryType ≠ none ∨ schema.mutationType ≠ none) ∧ schema.WellFormed) ∧
      ∃ api node id, schema.toDefinition = .ok api ∧
        Represents schema (schema.Reached schema.Admits) api.types node ∧ node "Film" = some id ∧
          Shaped api.types node film (api.types.kind id) := by
  intro schema
  have hroot : schema.queryType ≠ none ∨ schema.mutationType ≠ none := .inl (by decide)
  have hschema : schema.WellFormed := by decide
  obtain ⟨api, node, hapi, hnode⟩ := toDefinition_represents hroot hschema
  have hquery : schema.Reached schema.Admits "Query" filmQueries :=
    .root (.inl rfl) ⟨⟨List.mem_cons_self, rfl⟩, by decide, by decide +kernel⟩
  have hfilm : schema.Reached schema.Admits "Film" film :=
    .reference hquery (.field List.mem_cons_self) .plain
      ⟨⟨List.mem_cons_of_mem _ List.mem_cons_self, rfl⟩, by decide, by decide +kernel⟩
  obtain ⟨id, hid⟩ := (hnode.node_iff "Film").2 ⟨film, hfilm⟩
  exact ⟨⟨hroot, hschema⟩, api, node, id, hapi, hnode, hid, hnode.shaped "Film" film id hfilm hid⟩

/-- A schema whose users can be reached only along a type of the language. -/
def linkedSchema : Introspection :=
  querySchema [objectType "Query" [⟨"meta", none, [], .plain .object (some "__Meta")⟩],
    objectType "__Meta" [⟨"user", none, [], .plain .object (some "User")⟩], objectType "User" []]

/-- The definition of the schema. -/
def linkedApi : Api.Definition :=
  match linkedSchema.toDefinition with
  | .ok api => api
  | .error _ => ⟨.graphql, "", "", [], [], .empty, none⟩

/-- The types that can be reached along types of all sorts do not all have nodes: a type of the
language is not followed. -/
theorem not_represents_every_linked :
    ¬∀ schema : Introspection, schema.queryType ≠ none ∨ schema.mutationType ≠ none →
      schema.WellFormed → ∃ api node, schema.toDefinition = .ok api ∧
        Represents schema
          (fun name t => schema.Reached schema.Declares name t ∧ schema.Admits name t)
          api.types node := by
  intro hall
  obtain ⟨api, node, hapi, hnode⟩ := hall linkedSchema (.inl (by decide)) (by decide)
  have hquery : linkedSchema.Reached linkedSchema.Declares "Query" _ :=
    .root (.inl rfl) ⟨List.mem_cons_self, rfl⟩
  have hmeta : linkedSchema.Reached linkedSchema.Declares "__Meta" _ :=
    .reference hquery (.field List.mem_cons_self) .plain
      ⟨List.mem_cons_of_mem _ List.mem_cons_self, rfl⟩
  have huser : linkedSchema.Reached linkedSchema.Declares "User" _ :=
    .reference hmeta (.field List.mem_cons_self) .plain
      ⟨List.mem_cons_of_mem _ (List.mem_cons_of_mem _ List.mem_cons_self), rfl⟩
  obtain ⟨first, hfirst⟩ :=
    (hnode.node_iff "Query").2 ⟨_, hquery, hquery.own, by decide, by decide +kernel⟩
  obtain ⟨second, hsecond⟩ :=
    (hnode.node_iff "User").2 ⟨_, huser, huser.own, by decide, by decide +kernel⟩
  -- Only the first node of the definition has a name.
  have hone : ∀ id < linkedApi.types.size, (linkedApi.types.nameOf id).isSome = true → id = 0 := by
    decide +kernel
  have htypes : linkedApi = api := by rw [linkedApi, hapi]
  rw [htypes] at hone
  have hzero {name : String} {id : TypeId} (hid : node name = some id) : id = 0 := by
    obtain ⟨text, htext⟩ := (hnode.named_iff id).2 ⟨name, hid⟩
    exact hone id (TypeGraph.lt_of_nameOf htext) (by rw [htext]; rfl)
  rw [hzero hfirst] at hfirst
  rw [hzero hsecond] at hsecond
  exact absurd (hnode.injective _ _ 0 hfirst hsecond) (by decide)

end TypedClient.GraphQl
