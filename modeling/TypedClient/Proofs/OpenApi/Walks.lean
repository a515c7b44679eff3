import TypedClient.Proofs.OpenApi.Keeping
import TypedClient.Proofs.OpenApi.Mapping

/-!
# What mapping keeps

Mapping schemas changes the state in four ways: a node is added, a node gets a description, a named
schema gets a node, and that node gets its shape.  What each of these keeps is kept by mapping,
whatever the schemas are.

* `Stable` asks for it, with a property of the shapes that nodes get and one of the schemas that
  these come from;
* `Stable.shapeOf` is the step, one case for each way a schema gets its shape, and
  `Stable.mapSchema` and `Stable.mapComponents` follow the references.
-/

set_option autoImplicit false

namespace TypedClient.OpenApi

open TypedClient.Types

/-- A property `I` of states is kept by changes of the state, as long as nodes get shapes with the
property `K`; and schemas with the property `H` have such shapes. -/
structure Stable (schemas : Dict Schema) (H : Schema → Prop) (K : TypeKind → Prop)
    (I : Building → Prop) : Prop where
  /-- Shapes without fields and values have the property. -/
  plain : ∀ kind, (∀ fields, kind ≠ .object fields) →
    (∀ values, kind ≠ .enumeration values) → K kind
  /-- So have objects with one field for each property of a schema. -/
  object : ∀ (s : Schema) (fields : List Field), H s →
    fields.map Field.name = s.properties.map Prod.fst → K (.object fields)
  /-- So have the constants of schemas. -/
  constant : ∀ s value, H s → s.keywords.constant = some value → K (.enumeration [value])
  /-- So have their enumerations. -/
  values : ∀ s, H s → K (.enumeration s.keywords.values)
  /-- So has what is merged in a state with the property. -/
  merged : ∀ b ids, I b → K (mergedKind b.graph ids)
  /-- The parts of a schema do not matter for the property of schemas. -/
  alone : ∀ s, H s → H s.alone
  /-- A node is added. -/
  add : ∀ b kind, I b → K kind → I ⟨b.graph.add kind, b.placed⟩
  /-- A node gets a description. -/
  describe : ∀ b id text, I b → I ⟨b.graph.setDescription id text, b.placed⟩
  /-- A named schema gets a node. -/
  reserve : ∀ b name s, I b → Dict.get? schemas name = some s → I (withReserved b name)
  /-- A node gets its shape. -/
  shape : ∀ b id kind, I b → K kind → I ⟨b.graph.setKind id kind, b.placed⟩

namespace Stable

/-- A step keeps the property. -/
abbrev Stays {α : Type} (I : Building → Prop) (m : Build α) : Prop := Keeps I (fun _ => True) m

variable {schemas : Dict Schema} {H : Schema → Prop} {K : TypeKind → Prop} {I : Building → Prop}
  {follow : String → Build TypeId} {s : Schema} {kind : TypeKind}

section Nodes

variable (hI : Stable schemas H K I)

include hI

theorem union (members : List TypeId) : K (.union members) := hI.plain _ (by simp) (by simp)

theorem primitive (p : Primitive) : K (.primitive p) := hI.plain _ (by simp) (by simp)

theorem unknown : K .unknown := hI.plain _ (by simp) (by simp)

theorem map (value : TypeId) : K (.map value) := hI.plain _ (by simp) (by simp)

theorem array (item : TypeId) : K (.array item) := hI.plain _ (by simp) (by simp)

theorem addNode (hkind : K kind) : Stays I (Build.add kind) :=
  fun b hb => yields_ok ⟨hI.add b kind hb hkind, trivial⟩

theorem admitNull (nullable : Bool) (id : TypeId) : Stays I (admitNull nullable id) := by
  rw [OpenApi.admitNull]
  split
  · exact keeps_pure trivial
  · refine Keeps.bind (P := fun _ => True) (fun _ hb => yields_ok ⟨hb, trivial⟩) fun g _ => ?_
    split
    · exact keeps_pure trivial
    · exact (hI.addNode (hI.primitive _)).bind fun null _ => hI.addNode (hI.union _)

theorem placeNode (hfollow : ∀ reference, Stays I (follow reference)) (keywords : Keywords)
    {shape : Build TypeKind} (hshape : Keeps I K shape) :
    Stays I (placeNode follow keywords shape) := by
  rw [OpenApi.placeNode]
  split
  · exact (hfollow _).bind fun _ _ => hI.admitNull _ _
  · refine hshape.bind fun kind hkind => (hI.addNode hkind).bind fun id _ => ?_
    refine Keeps.bind (P := fun _ => True)
      (fun b hb => yields_ok ⟨hI.describe b id keywords.description hb, trivial⟩) fun _ _ => ?_
    exact hI.admitNull _ _

end Nodes

/-! ## Shapes -/

/-- The node of the schema can be made. -/
abbrev Places (I : Building → Prop) (follow : String → Build TypeId) (s : Schema) : Prop :=
  Stays I (OpenApi.placeNode follow s.keywords (OpenApi.shapeOf follow s))

theorem placeAll {parts : List Schema} (h : ∀ part ∈ parts, Places I follow part) :
    Stays I (placeAll follow parts) := by
  induction parts with
  | nil =>
    rw [OpenApi.placeAll]
    exact keeps_pure trivial
  | cons part rest ih =>
    rw [OpenApi.placeAll]
    obtain ⟨hpart, hrest⟩ := List.forall_mem_cons.1 h
    exact hpart.bind fun _ _ => (ih hrest).bind fun _ _ => keeps_pure trivial

/-- There is one field for each property, of its name. -/
theorem placeProperties {required : List String} {properties : List (String × Schema)}
    (h : ∀ entry ∈ properties, Places I follow entry.2) :
    Keeps I (fun fields => fields.map Field.name = properties.map Prod.fst)
      (placeProperties follow required properties) := by
  induction properties with
  | nil =>
    rw [OpenApi.placeProperties]
    exact keeps_pure rfl
  | cons entry rest ih =>
    rw [OpenApi.placeProperties]
    obtain ⟨hentry, hrest⟩ := List.forall_mem_cons.1 h
    refine hentry.bind fun _ _ => (ih hrest).bind fun fields hfields => keeps_pure ?_
    rw [List.map_cons, List.map_cons, hfields]

section Shapes

variable (hI : Stable schemas H K I)

include hI

theorem placeItems {items : Option Schema} (h : ∀ item, items = some item → Places I follow item) :
    Stays I (placeItems follow items) := by
  cases items with
  | none =>
    rw [OpenApi.placeItems]
    exact hI.addNode hI.unknown
  | some item =>
    rw [OpenApi.placeItems]
    exact h item rfl

theorem placeAdditional {additional : Option (Additional Schema)}
    (h : ∀ value, additional = some (.described value) → Places I follow value) :
    Stays I (placeAdditional follow additional) := by
  rw [OpenApi.placeAdditional.eq_def]
  split
  · exact h _ rfl
  · exact hI.addNode hI.unknown

theorem shapeOfNames {array object : Build TypeKind} (harray : Keeps I K array)
    (hobject : Keeps I K object) (names : List String) :
    Keeps I K (shapeOfNames array object names) := by
  have hnamed (name : String) : Keeps I K (shapeNamed array object name) := by
    rw [shapeNamed.eq_def]
    split
    · exact keeps_pure (hI.primitive _)
    · exact keeps_pure (hI.primitive _)
    · exact keeps_pure (hI.primitive _)
    · exact keeps_pure (hI.primitive _)
    · exact keeps_pure (hI.primitive _)
    · exact harray
    · exact hobject
    · exact keeps_pure hI.unknown
  rw [OpenApi.shapeOfNames.eq_def]
  split
  · exact keeps_pure hI.unknown
  · exact hnamed _
  · refine (Keeps.mapM (S := fun _ => True) fun name _ => ?_).bind fun members _ =>
      keeps_pure (hI.union members)
    exact (hnamed name).bind fun kind hkind => hI.addNode hkind

end Shapes

/-- The schemas inside of a schema can be placed. -/
structure Inside (I : Building → Prop) (follow : String → Build TypeId) (s : Schema) : Prop where
  /-- The properties can. -/
  properties : ∀ entry ∈ s.properties, Places I follow entry.2
  /-- The items can. -/
  items : ∀ item, s.items = some item → Places I follow item
  /-- The values of further members can. -/
  additional : ∀ value, s.additional = some (.described value) → Places I follow value
  /-- The alternatives can. -/
  alternatives : ∀ choice ∈ s.alternatives, Places I follow choice

theorem ownShape (hI : Stable schemas H K I) (hs : H s) (hinside : Inside I follow s) :
    Keeps I K (ownShape follow s) := by
  have hobject : Keeps I K (objectShape follow s) := by
    rw [objectShape]
    split
    · exact (hI.placeAdditional hinside.additional).bind fun value _ =>
        keeps_pure (hI.map value)
    · exact (placeProperties hinside.properties).bind fun fields hfields =>
        keeps_pure (hI.object s fields hs hfields)
  have harray : Keeps I K (do return .array (← OpenApi.placeItems follow s.items)) :=
    (hI.placeItems hinside.items).bind fun item _ => keeps_pure (hI.array item)
  rw [OpenApi.ownShape]
  split
  · exact (placeAll hinside.alternatives).bind fun members _ => keeps_pure (hI.union members)
  · split
    · rename_i value hvalue
      exact keeps_pure (hI.constant s value hs hvalue)
    · split
      · exact keeps_pure (hI.values s hs)
      · exact hI.shapeOfNames harray hobject _

/-- The shape of a schema, by induction on the schemas inside of it. -/
theorem shapeOf (hI : Stable schemas H K I) (hfollow : ∀ reference, Stays I (follow reference))
    (hs : s.All H) : Keeps I K (shapeOf follow s) := by
  induction hs with
  | @intro s hhead _ _ _ _ _ ihproperties ihitems ihadditional ihalternatives ihparts =>
    have hinside : Inside I follow s := {
      properties := fun entry h => hI.placeNode hfollow _ (ihproperties entry h)
      items := fun item h => hI.placeNode hfollow _ (ihitems item h)
      additional := fun value h => hI.placeNode hfollow _ (ihadditional value h)
      alternatives := fun choice h => hI.placeNode hfollow _ (ihalternatives choice h) }
    have hmerged (ids : List TypeId) :
        Keeps I K (do return mergedKind (← Build.graph) ids) := fun b hb =>
      yields_ok ⟨hb, hI.merged b ids hb⟩
    cases href : s.keywords.reference with
    | some reference =>
      rw [shapeOf_reference href]
      exact (hfollow reference).bind fun target _ => keeps_pure (hI.union _)
    | none =>
      by_cases hparts : s.parts = []
      · rw [shapeOf_own href hparts]
        exact hI.ownShape hhead hinside
      · have hinherited : Stays I (OpenApi.placeAll follow s.parts) :=
          placeAll fun part h => hI.placeNode hfollow _ (ihparts part h)
        have halone : Stays I (placeSchema follow s.alone) := by
          have hown : Keeps I K (OpenApi.ownShape follow s.alone) :=
            hI.ownShape (hI.alone s hhead)
              ⟨hinside.properties, hinside.items, hinside.additional, hinside.alternatives⟩
          rw [← shapeOf_own (s := s.alone) href rfl] at hown
          exact hI.placeNode hfollow _ hown
        rw [shapeOf_merging href hparts]
        refine hinherited.bind fun inherited _ => ?_
        split
        · exact hmerged _
        · exact halone.bind fun last _ => hmerged _

/-! ## Named schemas -/

theorem followTo {visit : String → Build TypeId} (hvisit : ∀ name, Stays I (visit name))
    (reference : String) : Stays I (followTo schemas visit reference) := by
  rw [OpenApi.followTo]
  split
  · split
    · exact hvisit _
    · exact keeps_throw _
  · exact keeps_throw _

theorem placedOr {name : String} {make : Build TypeId} (hmake : Stays I make) :
    Stays I (placedOr name make) := by
  rw [OpenApi.placedOr]
  refine keeps_get.bind fun b _ => ?_
  split
  · exact keeps_pure trivial
  · exact hmake

section Components

variable (hI : Stable schemas H K I)

include hI

theorem admitNullInside (nullable : Bool) (hkind : K kind) :
    Keeps I K (admitNullInside nullable kind) := by
  rw [OpenApi.admitNullInside]
  split
  · refine (hI.addNode hkind).bind fun inner _ => ?_
    exact (hI.addNode (hI.primitive _)).bind fun null _ => keeps_pure (hI.union _)
  · exact keeps_pure hkind

theorem makeComponent {name : String} (hname : Dict.get? schemas name = some s)
    {shape : Build TypeKind} (hshape : Keeps I K shape) : Stays I (makeComponent name s shape) := by
  have hreserve : Stays I (reserveComponent name) := fun b hb => by
    rw [reserveComponent_eq]
    exact yields_ok ⟨hI.reserve b name s hb hname, trivial⟩
  rw [OpenApi.makeComponent]
  refine hreserve.bind fun id _ => hshape.bind fun kind hkind => ?_
  refine (hI.admitNullInside _ hkind).bind fun kind hkind => ?_
  refine Keeps.bind (P := fun _ => True) (fun b hb => yields_ok ⟨?_, trivial⟩) fun _ _ =>
    keeps_pure trivial
  exact hI.describe _ id s.keywords.description (hI.shape b id kind hb hkind)

/-- A named schema, by induction on how many may be met inside of each other. -/
theorem component (hschemas : ∀ entry ∈ schemas, entry.2.All H) (steps : Nat) (name : String) :
    Stays I (component schemas steps name) := by
  induction steps generalizing name with
  | zero =>
    rw [OpenApi.component]
    exact placedOr (keeps_throw _)
  | succ steps ih =>
    rw [OpenApi.component]
    refine placedOr ?_
    split
    · exact keeps_throw _
    · rename_i s hs
      exact hI.makeComponent hs (hI.shapeOf (followTo ih) (hschemas _ (Dict.mem_of_get? hs)))

theorem mapSchema (hschemas : ∀ entry ∈ schemas, entry.2.All H) (hs : s.All H) :
    Stays I (mapSchema schemas s) := by
  have hfollow : ∀ reference, Stays I (mapReference schemas reference) :=
    followTo (hI.component hschemas _)
  exact hI.placeNode hfollow _ (hI.shapeOf hfollow hs)

theorem mapComponents (hschemas : ∀ entry ∈ schemas, entry.2.All H) :
    Stays I (mapComponents schemas) :=
  Keeps.forM fun name _ => (hI.component hschemas _ name).map fun _ _ => trivial

end Components

end Stable

end TypedClient.OpenApi
