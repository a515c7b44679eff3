import TypedClient.OpenApi.SchemaTypes
import TypedClient.Proofs.Lists
import TypedClient.Proofs.Types.Growth

/-!
# Nodes that stand for schemas

What the mapping of schemas leaves behind in a graph can be said without the mapping.  A node stands
for a schema if it is there for the right keyword and the nodes it refers to stand for the schemas
inside; a reference stands for the node of the schema that it names, whatever that node looks like.

* `Shaped` says which shapes are right for a schema, given which nodes stand for the schemas inside;
* `Represents` is the largest relation between schemas and nodes that agrees with `Shaped`, so that
  a node may stand for a schema that contains a reference to itself;
* `Represents.later` says that building on does not undo it.
-/

set_option autoImplicit false

namespace TypedClient.OpenApi

open TypedClient.Types

/-! ## Schemas -/

/-- The property holds of a schema and of all schemas inside it. -/
inductive Schema.All (p : Schema → Prop) : Schema → Prop
  /-- It holds of the schema, and of what the keywords hold. -/
  | intro {s : Schema} (here : p s) (properties : ∀ entry ∈ s.properties, All p entry.2)
      (items : ∀ item, s.items = some item → All p item)
      (additional : ∀ value, s.additional = some (.described value) → All p value)
      (alternatives : ∀ choice ∈ s.alternatives, All p choice)
      (parts : ∀ part ∈ s.parts, All p part) : All p s

/-- What holds of every schema holds of all schemas inside a schema. -/
theorem Schema.all_of_forall {p : Schema → Prop} (h : ∀ s, p s) (s : Schema) : s.All p :=
  .intro (h s) (fun entry _ => Schema.all_of_forall h entry.2)
    (fun item _ => Schema.all_of_forall h item) (fun value _ => Schema.all_of_forall h value)
    (fun choice _ => Schema.all_of_forall h choice) fun part _ => Schema.all_of_forall h part
termination_by sizeOf s
decreasing_by
  all_goals
    rename_i hinside
    obtain ⟨keywords, properties, items, additional, alternatives, parts⟩ := s
    dsimp only at hinside
    rw [Schema.mk.sizeOf_spec]
  · obtain ⟨name, value⟩ := entry
    have hlt := List.sizeOf_lt_of_mem hinside
    rw [Prod.mk.sizeOf_spec] at hlt
    dsimp only
    omega
  · rw [hinside, Option.some.sizeOf_spec]
    omega
  · rw [hinside, Option.some.sizeOf_spec, Additional.described.sizeOf_spec]
    omega
  · have hlt := List.sizeOf_lt_of_mem hinside
    omega
  · have hlt := List.sizeOf_lt_of_mem hinside
    omega

/-- Keywords alone have no schemas inside. -/
theorem Schema.all_ofKeywords {p : Schema → Prop} {keywords : Keywords}
    (h : p (.ofKeywords keywords)) : (Schema.ofKeywords keywords).All p :=
  .intro h (fun _ h => absurd h List.not_mem_nil) (fun _ h => nomatch h) (fun _ h => nomatch h)
    (fun _ h => absurd h List.not_mem_nil) fun _ h => absurd h List.not_mem_nil

/-- The schema without the keyword that merges and without null. -/
def Schema.alone (s : Schema) : Schema :=
  ⟨{ s.keywords with nullable := false }, s.properties, s.items, s.additional, s.alternatives, []⟩

/-- The schemas that a schema merges, its own properties last. -/
def Schema.merged (s : Schema) : List Schema :=
  s.parts ++ if s.properties.isEmpty then [] else [s.alone]

/-- The shape for the name of a type that is neither that of lists nor that of objects. -/
def scalarShape : String → TypeKind
  | "string" => .primitive .string
  | "number" | "integer" => .primitive .number
  | "boolean" => .primitive .boolean
  | "null" => .primitive .null
  | _ => .unknown

/-- Whether an object schema says the same of all members. -/
def Schema.isRecord (s : Schema) : Bool :=
  match s.properties, s.additional with
  | [], some (.described _) => true
  | [], some (.allowed true) => true
  | _, _ => false

/-- The fields for properties whose nodes are given. -/
def fieldsFor (required : List String) (properties : List (String × Schema)) (ids : List TypeId) :
    List Field :=
  properties.zipWith
    (fun entry id =>
      ⟨entry.1, id, required.contains entry.1, entry.2.keywords.description⟩) ids

/-! ## Nodes -/

/-- A reference leads to the node of the schema that it names. -/
def LeadsTo (b : Building) (reference : String) (target : TypeId) : Prop :=
  ∃ name, referredName? .schemas reference = some name ∧ Dict.get? b.placed name = some target

/-- The node `id` admits what the node `inner` admits, and null if that is asked for. -/
inductive WithNull (g : TypeGraph) (inner : TypeId) : (nullable : Bool) → TypeId → Prop
  /-- Nothing is asked for. -/
  | plain : WithNull g inner false inner
  /-- The node admits nothing but null. -/
  | null (h : g.kind inner = .primitive .null) : WithNull g inner true inner
  /-- A union with null. -/
  | union {id null : TypeId} (hnull : IsAnonymous g null (.primitive .null))
      (hid : IsAnonymous g id (.union [inner, null])) : WithNull g inner true id

/-- The node of a schema that may be missing. -/
inductive OptionalPlaced (R : Schema → TypeId → Prop) (g : TypeGraph) :
    Option Schema → TypeId → Prop
  /-- The node stands for the schema. -/
  | some {s : Schema} {id : TypeId} (h : R s id) : OptionalPlaced R g (some s) id
  /-- Without a schema nothing is known. -/
  | none {id : TypeId} (h : IsAnonymous g id .unknown) : OptionalPlaced R g none id

/-- The schema of the members that are no properties, if there is one. -/
def Schema.valueSchema (s : Schema) : Option Schema :=
  match s.additional with
  | some (.described value) => some value
  | _ => none

/-- The shape is right for the name of a type. -/
inductive NameShaped (R : Schema → TypeId → Prop) (g : TypeGraph) (s : Schema) :
    String → TypeKind → Prop
  /-- Lists. -/
  | array {item : TypeId} (h : OptionalPlaced R g s.items item) :
      NameShaped R g s "array" (.array item)
  /-- Objects all of whose members are alike. -/
  | record {value : TypeId} (hrecord : s.isRecord = true)
      (h : OptionalPlaced R g s.valueSchema value) : NameShaped R g s "object" (.map value)
  /-- Objects with properties. -/
  | object {ids : List TypeId} (hrecord : s.isRecord = false)
      (h : List.Forall₂ (fun entry id => R entry.2 id) s.properties ids) :
      NameShaped R g s "object" (.object (fieldsFor s.keywords.required s.properties ids))
  /-- Any other name. -/
  | scalar {name : String} (harray : name ≠ "array") (hobject : name ≠ "object") :
      NameShaped R g s name (scalarShape name)

/-- The shape is right for a list of names of types. -/
inductive NamesShaped (R : Schema → TypeId → Prop) (g : TypeGraph) (s : Schema) :
    List String → TypeKind → Prop
  /-- Without a name nothing is known. -/
  | unknown : NamesShaped R g s [] .unknown
  /-- One name. -/
  | single {name : String} {kind : TypeKind} (h : NameShaped R g s name kind) :
      NamesShaped R g s [name] kind
  /-- Several names. -/
  | several {names : List String} {ids : List TypeId} (hlength : 2 ≤ names.length)
      (h : List.Forall₂
        (fun name id => ∃ kind, IsAnonymous g id kind ∧ NameShaped R g s name kind) names ids) :
      NamesShaped R g s names (.union ids)

/-- The shape is right for the keywords of a schema other than references and merging. -/
inductive OwnShaped (R : Schema → TypeId → Prop) (g : TypeGraph) (s : Schema) : TypeKind → Prop
  /-- Alternatives decide first. -/
  | alternatives {ids : List TypeId} (halternatives : s.alternatives ≠ [])
      (h : List.Forall₂ R s.alternatives ids) : OwnShaped R g s (.union ids)
  /-- A constant decides next. -/
  | constant {value : Json} (halternatives : s.alternatives = [])
      (hconstant : s.keywords.constant = some value) : OwnShaped R g s (.enumeration [value])
  /-- An enumeration decides next. -/
  | values (halternatives : s.alternatives = []) (hconstant : s.keywords.constant = none)
      (hvalues : s.keywords.values ≠ []) : OwnShaped R g s (.enumeration s.keywords.values)
  /-- The names of types decide last. -/
  | names {kind : TypeKind} (halternatives : s.alternatives = [])
      (hconstant : s.keywords.constant = none) (hvalues : s.keywords.values = [])
      (h : NamesShaped R g s (typeNames s) kind) : OwnShaped R g s kind

/-- The shape is right for a schema. -/
inductive Shaped (R : Schema → TypeId → Prop) (b : Building) (s : Schema) : TypeKind → Prop
  /-- A reference is an alias. -/
  | reference {reference : String} {target : TypeId} (href : s.keywords.reference = some reference)
      (htarget : LeadsTo b reference target) : Shaped R b s (.union [target])
  /-- What is merged was merged in a graph that has grown since. -/
  | merged {g : TypeGraph} {ids : List TypeId} (href : s.keywords.reference = none)
      (hparts : s.parts ≠ []) (hg : g.Sound) (hgrows : g.Grows b.graph)
      (hlt : ∀ id ∈ ids, id < g.size) (h : List.Forall₂ R s.merged ids) : Shaped R b s
      (mergedKind g ids)
  /-- The keywords of the schema itself. -/
  | own {kind : TypeKind} (href : s.keywords.reference = none) (hparts : s.parts = [])
      (h : OwnShaped R b.graph s kind) : Shaped R b s kind

/-- The node is right for a schema. -/
inductive Stands (R : Schema → TypeId → Prop) (b : Building) (s : Schema) : TypeId → Prop
  /-- A reference stands for the node it leads to. -/
  | reference {reference : String} {inner id : TypeId}
      (href : s.keywords.reference = some reference) (hinner : LeadsTo b reference inner)
      (hid : WithNull b.graph inner s.keywords.nullable id) : Stands R b s id
  /-- Other schemas have a node of their own. -/
  | shape {kind : TypeKind} {inner id : TypeId} (href : s.keywords.reference = none)
      (hinner : IsAnonymous b.graph inner kind) (hkind : Shaped R b s kind)
      (hid : WithNull b.graph inner s.keywords.nullable id) : Stands R b s id

/-- The node stands for the schema: some relation holds of both and agrees with the keywords. -/
def Represents (b : Building) (s : Schema) (id : TypeId) : Prop :=
  ∃ R : Schema → TypeId → Prop, (∀ s id, R s id → Stands R b s id) ∧ R s id

/-- The shape is right for a named schema, which has its null inside. -/
inductive Fills (b : Building) (s : Schema) : TypeKind → Prop
  /-- The shape of the schema. -/
  | plain {kind : TypeKind} (hnullable : s.keywords.nullable = false)
      (h : Shaped (Represents b) b s kind) : Fills b s kind
  /-- A union with null. -/
  | nullable {kind : TypeKind} {inner null : TypeId} (hnullable : s.keywords.nullable = true)
      (h : Shaped (Represents b) b s kind) (hinner : IsAnonymous b.graph inner kind)
      (hnull : IsAnonymous b.graph null (.primitive .null)) : Fills b s (.union [inner, null])

/-- What building on keeps. -/
structure Later (b c : Building) : Prop where
  /-- The graph has grown. -/
  graph : b.graph.Grows c.graph
  /-- Named schemas have the nodes they had. -/
  placed : ∀ name id, Dict.get? b.placed name = some id → Dict.get? c.placed name = some id

/-! ## Building on -/

variable {R S : Schema → TypeId → Prop} {b c d : Building} {g h : TypeGraph} {s : Schema}
  {kind : TypeKind} {id : TypeId}

theorem Later.refl (b : Building) : Later b b := ⟨.refl b.graph, fun _ _ hid => hid⟩

theorem Later.trans (hbc : Later b c) (hcd : Later c d) : Later b d :=
  ⟨hbc.graph.trans hcd.graph, fun name id hid => hcd.placed name id (hbc.placed name id hid)⟩

theorem LeadsTo.later {reference : String} (hid : LeadsTo b reference id) (hbc : Later b c) :
    LeadsTo c reference id := by
  obtain ⟨name, hname, hplaced⟩ := hid
  exact ⟨name, hname, hbc.placed name id hplaced⟩

theorem WithNull.grows {inner : TypeId} {nullable : Bool} (hid : WithNull g inner nullable id)
    (hgh : g.Grows h) (hinner : inner < g.size) : WithNull h inner nullable id := by
  cases hid with
  | plain => exact .plain
  | null hnull =>
    refine .null ?_
    rw [hgh.kind_eq _ hinner (.inr (by rw [hnull]; exact TypeKind.noConfusion)), hnull]
  | union hnull hid => exact .union (hgh.isAnonymous hnull) (hgh.isAnonymous hid)

section Mono

variable (hRS : ∀ s id, R s id → S s id)
include hRS

theorem OptionalPlaced.mono {s : Option Schema} (hid : OptionalPlaced R g s id) (hgh : g.Grows h) :
    OptionalPlaced S h s id := by
  cases hid with
  | some hid => exact .some (hRS _ _ hid)
  | none hid => exact .none (hgh.isAnonymous hid)

theorem NameShaped.mono {name : String} (hkind : NameShaped R g s name kind) (hgh : g.Grows h) :
    NameShaped S h s name kind := by
  cases hkind with
  | array hitem => exact .array (hitem.mono hRS hgh)
  | record hrecord hvalue => exact .record hrecord (hvalue.mono hRS hgh)
  | object hrecord hids => exact .object hrecord (hids.imp fun _ _ => hRS _ _)
  | scalar harray hobject => exact .scalar harray hobject

theorem NamesShaped.mono {names : List String} (hkind : NamesShaped R g s names kind)
    (hgh : g.Grows h) : NamesShaped S h s names kind := by
  cases hkind with
  | unknown => exact .unknown
  | single hkind => exact .single (hkind.mono hRS hgh)
  | several hlength hids =>
    refine .several hlength (hids.imp fun name id hid => ?_)
    obtain ⟨kind, hid, hkind⟩ := hid
    exact ⟨kind, hgh.isAnonymous hid, hkind.mono hRS hgh⟩

theorem OwnShaped.mono (hkind : OwnShaped R g s kind) (hgh : g.Grows h) : OwnShaped S h s kind := by
  cases hkind with
  | alternatives halternatives hids => exact .alternatives halternatives (hids.imp hRS)
  | constant halternatives hconstant => exact .constant halternatives hconstant
  | values halternatives hconstant hvalues => exact .values halternatives hconstant hvalues
  | names halternatives hconstant hvalues hkind =>
    exact .names halternatives hconstant hvalues (hkind.mono hRS hgh)

theorem Shaped.mono (hkind : Shaped R b s kind) (hbc : Later b c) : Shaped S c s kind := by
  cases hkind with
  | reference href htarget => exact .reference href (htarget.later hbc)
  | merged href hparts hg hgrows hlt hids =>
    exact .merged href hparts hg (hgrows.trans hbc.graph) hlt (hids.imp hRS)
  | own href hparts hkind => exact .own href hparts (hkind.mono hRS hbc.graph)

end Mono

/-- Every placed name has a node. -/
def PlacedNodes (b : Building) : Prop :=
  ∀ name id, Dict.get? b.placed name = some id → id < b.graph.size

theorem Stands.mono (hid : Stands R b s id) (hRS : ∀ s id, R s id → S s id) (hbc : Later b c)
    (hplaced : PlacedNodes b) : Stands S c s id := by
  cases hid with
  | reference href hinner hid =>
    have hlt : _ < b.graph.size := hplaced _ _ hinner.choose_spec.2
    exact .reference href (hinner.later hbc) (hid.grows hbc.graph hlt)
  | shape href hinner hkind hid =>
    exact .shape href (hbc.graph.isAnonymous hinner) (hkind.mono hRS hbc)
      (hid.grows hbc.graph hinner.lt)

/-- What stands for a schema goes on standing for it. -/
theorem Represents.later (hid : Represents b s id) (hbc : Later b c) (hplaced : PlacedNodes b) :
    Represents c s id := by
  obtain ⟨R, hR, hid⟩ := hid
  exact ⟨R, fun s id h => (hR s id h).mono (fun _ _ h => h) hbc hplaced, hid⟩

/-- What a node that stands for a schema looks like. -/
theorem Represents.stands (hid : Represents b s id) : Stands (Represents b) b s id := by
  obtain ⟨R, hR, hid⟩ := hid
  cases hR s id hid with
  | reference href hinner hid => exact .reference href hinner hid
  | shape href hinner hkind hid =>
    exact .shape href hinner (hkind.mono (fun s id h => ⟨R, hR, h⟩) (.refl b)) hid

/-- A node that looks like one that stands for the schema does stand for it. -/
theorem Stands.represents (hid : Stands (Represents b) b s id) : Represents b s id := by
  refine ⟨Stands (Represents b) b, fun s id h => ?_, hid⟩
  cases h with
  | reference href hinner hid => exact .reference href hinner hid
  | shape href hinner hkind hid =>
    exact .shape href hinner (hkind.mono (fun s id h => h.stands) (.refl b)) hid

theorem Fills.later (hkind : Fills b s kind) (hbc : Later b c) (hplaced : PlacedNodes b) :
    Fills c s kind := by
  have hmono : ∀ s id, Represents b s id → Represents c s id := fun s id h => h.later hbc hplaced
  cases hkind with
  | plain hnullable hkind => exact .plain hnullable (hkind.mono hmono hbc)
  | nullable hnullable hkind hinner hnull =>
    exact .nullable hnullable (hkind.mono hmono hbc) (hbc.graph.isAnonymous hinner)
      (hbc.graph.isAnonymous hnull)

end TypedClient.OpenApi
