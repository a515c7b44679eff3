import TypedClient.Proofs.OpenApi.Mapping
import TypedClient.Proofs.Types.Conformance

/-!
# Values of a schema

What values a schema admits can be said by its keywords alone, without nodes.  This file says it and
shows that the node of a schema without merging admits the same values.

* `Satisfies` says that a value satisfies a schema; schemas may refer to each other in circles, so
  it is the largest relation that agrees with the keywords;
* `conforms_iff_satisfies` says that the values that conform to a node are those that satisfy the
  schema it stands for;
* `mapSchema_faithful` says what this means for the walk that decides about a value.
-/

set_option autoImplicit false

namespace TypedClient.OpenApi

open TypedClient.Types

/-! ## What the keywords say -/

/-- The schema gives the name of a type: in its list, or through the keywords for objects and lists
if it has no list. -/
inductive NamesType (s : Schema) : String → Prop
  /-- A name of the list. -/
  | listed {names : List String} {name : String} (htypes : s.keywords.types = some names)
      (h : name ∈ names) : NamesType s name
  /-- Properties, or what is said about further members, tell of an object. -/
  | object (htypes : s.keywords.types = none) (h : s.properties ≠ [] ∨ s.additional.isSome) :
      NamesType s "object"
  /-- Items tell of a list, unless there is something that tells of an object. -/
  | array (htypes : s.keywords.types = none) (hproperties : s.properties = [])
      (hadditional : s.additional = none) (h : s.items.isSome) : NamesType s "array"

/-- What an object has to hold for a property. -/
structure PropertyHolds (R : Schema → Json → Prop) (s : Schema) (members : Dict Json)
    (entry : String × Schema) : Prop where
  /-- A member of the name satisfies the schema of the property. -/
  present : ∀ value, Dict.get? members entry.1 = some value → R entry.2 value
  /-- A member that has to be present is. -/
  required : entry.1 ∈ s.keywords.required → (Dict.get? members entry.1).isSome

/-- The value is of the type of the given name. -/
inductive OfType (R : Schema → Json → Prop) (s : Schema) : String → Json → Prop
  /-- Texts. -/
  | string (text : String) : OfType R s "string" (.string text)
  /-- Numbers. -/
  | number (n : Json.Number) : OfType R s "number" (.number n)
  /-- Numbers again. -/
  | integer (n : Json.Number) : OfType R s "integer" (.number n)
  /-- Truth values. -/
  | boolean (b : Bool) : OfType R s "boolean" (.bool b)
  /-- Null. -/
  | null : OfType R s "null" .null
  /-- Lists whose items satisfy the schema for them, if there is one. -/
  | array {items : List Json} (h : ∀ item, s.items = some item → ∀ value ∈ items, R item value) :
      OfType R s "array" (.array items)
  /-- Objects without properties all of whose members satisfy a schema. -/
  | record {members : Dict Json} {value : Schema} (hproperties : s.properties = [])
      (hadditional : s.additional = some (.described value))
      (h : ∀ member ∈ members, R value member.2) : OfType R s "object" (.object members)
  /-- Objects without properties that may have any members. -/
  | anyObject {members : Dict Json} (hproperties : s.properties = [])
      (hadditional : s.additional = some (.allowed true)) : OfType R s "object" (.object members)
  /-- Any other objects. -/
  | object {members : Dict Json}
      (hother : s.properties = [] → s.additional = none ∨ s.additional = some (.allowed false))
      (h : ∀ entry ∈ s.properties, PropertyHolds R s members entry) :
      OfType R s "object" (.object members)
  /-- A name that stands for nothing known admits every value. -/
  | unknown {name : String} {value : Json}
      (h : name ∉ ["string", "number", "integer", "boolean", "null", "array", "object"]) :
      OfType R s name value

/-- The value is right for the keywords of the schema, null left aside.  The first of them that is
there decides. -/
inductive Matches (schemas : Dict Schema) (R : Schema → Json → Prop) (s : Schema) : Json → Prop
  /-- A reference: the value satisfies the schema that it names. -/
  | reference {reference name : String} {named : Schema} {value : Json}
      (href : s.keywords.reference = some reference)
      (hname : referredName? .schemas reference = some name)
      (hnamed : Dict.get? schemas name = some named) (h : R named value) : Matches schemas R s value
  /-- Alternatives: the value satisfies one of them. -/
  | alternative {choice : Schema} {value : Json} (href : s.keywords.reference = none)
      (hchoice : choice ∈ s.alternatives) (h : R choice value) : Matches schemas R s value
  /-- A constant: the value equals it. -/
  | constant {constant value : Json} (href : s.keywords.reference = none)
      (halternatives : s.alternatives = []) (hconstant : s.keywords.constant = some constant)
      (h : constant.agrees value = true) : Matches schemas R s value
  /-- An enumeration: the value is one of its values. -/
  | listed {listed value : Json} (href : s.keywords.reference = none)
      (halternatives : s.alternatives = []) (hconstant : s.keywords.constant = none)
      (hlisted : listed ∈ s.keywords.values) (h : listed.agrees value = true) :
      Matches schemas R s value
  /-- No name of a type: any value. -/
  | anything {value : Json} (href : s.keywords.reference = none)
      (halternatives : s.alternatives = []) (hconstant : s.keywords.constant = none)
      (hvalues : s.keywords.values = []) (h : ∀ name, ¬NamesType s name) : Matches schemas R s value
  /-- Names of types: the value is of one of them. -/
  | ofType {name : String} {value : Json} (href : s.keywords.reference = none)
      (halternatives : s.alternatives = []) (hconstant : s.keywords.constant = none)
      (hvalues : s.keywords.values = []) (hname : NamesType s name) (h : OfType R s name value) :
      Matches schemas R s value

/-- The value is right for the schema: for its keywords, or as a null that is admitted. -/
def Meets (schemas : Dict Schema) (R : Schema → Json → Prop) (s : Schema) (value : Json) : Prop :=
  (s.keywords.nullable = true ∧ value = .null) ∨ Matches schemas R s value

/-- The value satisfies the schema: some relation holds of both and agrees with the keywords. -/
def Satisfies (schemas : Dict Schema) (s : Schema) (value : Json) : Prop :=
  ∃ R : Schema → Json → Prop, (∀ s value, R s value → Meets schemas R s value) ∧ R s value

/-- Nothing is merged in the schema, and all its references name schemas. -/
def Plain (schemas : Dict Schema) : Schema → Prop :=
  Schema.All fun s => s.parts = [] ∧ ∀ reference, s.keywords.reference = some reference →
    ∃ name, referredName? .schemas reference = some name ∧ Dict.contains schemas name = true

variable {schemas : Dict Schema} {R S : Schema → Json → Prop} {s : Schema} {value : Json}

theorem OfType.mono {name : String} (h : OfType R s name value)
    (hRS : ∀ s value, R s value → S s value) : OfType S s name value := by
  cases h with
  | string text => exact .string text
  | number n => exact .number n
  | integer n => exact .integer n
  | boolean b => exact .boolean b
  | null => exact .null
  | array h => exact .array fun item hitem value hvalue => hRS _ _ (h item hitem value hvalue)
  | record hproperties hadditional h =>
    exact .record hproperties hadditional fun member hmember => hRS _ _ (h member hmember)
  | anyObject hproperties hadditional => exact .anyObject hproperties hadditional
  | object hother h =>
    refine .object hother fun entry hentry => ⟨fun value hvalue => ?_, (h entry hentry).required⟩
    exact hRS _ _ ((h entry hentry).present value hvalue)
  | unknown h => exact .unknown h

theorem OfType.of_array (h : OfType R s "array" value) :
    ∃ items, value = .array items ∧
      ∀ item, s.items = some item → ∀ value ∈ items, R item value := by
  generalize hname : "array" = name at h
  cases h with
  | array h => exact ⟨_, rfl, h⟩
  | unknown h => exact absurd (by simp [← hname]) h
  | _ => exact absurd hname (by decide)

theorem OfType.of_object (h : OfType R s "object" value) :
    ∃ members, value = .object members ∧
      ((∃ entry, s.properties = [] ∧ s.additional = some (.described entry) ∧
          ∀ member ∈ members, R entry member.2) ∨
        (s.properties = [] ∧ s.additional = some (.allowed true)) ∨
        ((s.properties = [] → s.additional = none ∨ s.additional = some (.allowed false)) ∧
          ∀ entry ∈ s.properties, PropertyHolds R s members entry)) := by
  generalize hname : "object" = name at h
  cases h with
  | record hproperties hadditional h =>
    exact ⟨_, rfl, .inl ⟨_, hproperties, hadditional, h⟩⟩
  | anyObject hproperties hadditional => exact ⟨_, rfl, .inr (.inl ⟨hproperties, hadditional⟩)⟩
  | object hother h => exact ⟨_, rfl, .inr (.inr ⟨hother, h⟩)⟩
  | unknown h => exact absurd (by simp [← hname]) h
  | _ => exact absurd hname (by decide)

theorem Meets.mono (h : Meets schemas R s value) (hRS : ∀ s value, R s value → S s value) :
    Meets schemas S s value := by
  refine h.imp id fun h => ?_
  cases h with
  | reference href hname hnamed h => exact .reference href hname hnamed (hRS _ _ h)
  | alternative href hchoice h => exact .alternative href hchoice (hRS _ _ h)
  | constant href halternatives hconstant h => exact .constant href halternatives hconstant h
  | listed href halternatives hconstant hlisted h =>
    exact .listed href halternatives hconstant hlisted h
  | anything href halternatives hconstant hvalues h =>
    exact .anything href halternatives hconstant hvalues h
  | ofType href halternatives hconstant hvalues hname h =>
    exact .ofType href halternatives hconstant hvalues hname (h.mono hRS)

theorem Satisfies.meets (h : Satisfies schemas s value) :
    Meets schemas (Satisfies schemas) s value := by
  obtain ⟨R, hR, hvalue⟩ := h
  exact (hR s value hvalue).mono fun s value h => ⟨R, hR, h⟩

/-! ## What decides

The keywords that are there leave one way in which a value can match.
-/

theorem Matches.of_reference {reference : String} (h : Matches schemas R s value)
    (href : s.keywords.reference = some reference) :
    ∃ name named, referredName? .schemas reference = some name ∧
      Dict.get? schemas name = some named ∧ R named value := by
  cases h with
  | reference href' hname hnamed h =>
    rw [href, Option.some.injEq] at href'
    subst href'
    exact ⟨_, _, hname, hnamed, h⟩
  | _ href' => exact absurd (href.symm.trans href') (Option.some_ne_none _)

theorem Matches.of_alternatives (h : Matches schemas R s value)
    (href : s.keywords.reference = none) (halternatives : s.alternatives ≠ []) :
    ∃ choice ∈ s.alternatives, R choice value := by
  cases h with
  | reference href' => exact absurd (href'.symm.trans href) (Option.some_ne_none _)
  | alternative _ hchoice h => exact ⟨_, hchoice, h⟩
  | _ _ hnone => exact absurd hnone halternatives

/-- Without a reference and alternatives it is a constant, an enumeration or types that decide. -/
theorem Matches.of_no_alternatives (h : Matches schemas R s value)
    (href : s.keywords.reference = none) (halternatives : s.alternatives = []) :
    (∃ constant, s.keywords.constant = some constant ∧ constant.agrees value = true) ∨
      (s.keywords.constant = none ∧ ∃ listed ∈ s.keywords.values, listed.agrees value = true) ∨
      (s.keywords.constant = none ∧ s.keywords.values = [] ∧
        ((∀ name, ¬NamesType s name) ∨ ∃ name, NamesType s name ∧ OfType R s name value)) := by
  cases h with
  | reference href' => exact absurd (href'.symm.trans href) (Option.some_ne_none _)
  | alternative _ hchoice =>
    rw [halternatives] at hchoice
    exact absurd hchoice List.not_mem_nil
  | constant _ _ hconstant h => exact .inl ⟨_, hconstant, h⟩
  | listed _ _ hconstant hlisted h => exact .inr (.inl ⟨hconstant, _, hlisted, h⟩)
  | anything _ _ hconstant hvalues h => exact .inr (.inr ⟨hconstant, hvalues, .inl h⟩)
  | ofType _ _ hconstant hvalues hname h =>
    exact .inr (.inr ⟨hconstant, hvalues, .inr ⟨_, hname, h⟩⟩)

/-! ## The names of the types -/

theorem mem_typeNames {name : String} : name ∈ typeNames s ↔ NamesType s name := by
  rw [typeNames]
  cases htypes : s.keywords.types with
  | some names =>
    refine ⟨fun h => .listed htypes h, fun h => ?_⟩
    cases h with
    | listed htypes' h =>
      rw [htypes, Option.some.injEq] at htypes'
      subst htypes'
      exact h
    | object htypes' => exact absurd (htypes.symm.trans htypes') (Option.some_ne_none _)
    | array htypes' => exact absurd (htypes.symm.trans htypes') (Option.some_ne_none _)
  | none =>
    dsimp only
    split
    · rename_i hobject
      have hobject' : s.properties ≠ [] ∨ s.additional.isSome := by simpa using hobject
      rw [List.mem_singleton]
      refine ⟨fun h => h ▸ .object htypes hobject', fun h => ?_⟩
      cases h with
      | listed htypes' => exact absurd (htypes'.symm.trans htypes) (Option.some_ne_none _)
      | object => rfl
      | array _ hproperties hadditional =>
        rw [hproperties, hadditional] at hobject'
        exact absurd hobject' (by simp)
    · rename_i hobject
      have hobject' : s.properties = [] ∧ s.additional = none := by simpa using hobject
      have harray (hitems : s.items.isSome = false) (h : NamesType s name) : False := by
        cases h with
        | listed htypes' => exact Option.some_ne_none _ (htypes'.symm.trans htypes)
        | object _ h =>
          rw [hobject'.1, hobject'.2] at h
          exact absurd h (by simp)
        | array _ _ _ h => exact Bool.false_ne_true (hitems.symm.trans h)
      split
      · rename_i hitems
        rw [List.mem_singleton]
        refine ⟨fun h => h ▸ .array htypes hobject'.1 hobject'.2 hitems, fun h => ?_⟩
        cases h with
        | listed htypes' => exact absurd (htypes'.symm.trans htypes) (Option.some_ne_none _)
        | object _ h =>
          rw [hobject'.1, hobject'.2] at h
          exact absurd h (by simp)
        | array => rfl
      · rename_i hitems
        exact iff_of_false List.not_mem_nil (harray (by simpa using hitems))

theorem isRecord_eq_true :
    s.isRecord = true ↔ s.properties = [] ∧
      (s.additional = some (.allowed true) ∨ ∃ value, s.additional = some (.described value)) := by
  rw [Schema.isRecord]
  cases s.properties with
  | cons entry rest => simp
  | nil =>
    cases s.additional with
    | none => simp
    | some additional =>
      cases additional with
      | described value => simp
      | allowed flag => cases flag <;> simp

theorem isRecord_eq_false :
    s.isRecord = false ↔
      (s.properties = [] → s.additional = none ∨ s.additional = some (.allowed false)) := by
  rw [← Bool.not_eq_true, isRecord_eq_true, not_and, not_or]
  refine imp_congr_right fun _ => ?_
  cases s.additional with
  | none => simp
  | some additional =>
    cases additional with
    | described value => simp
    | allowed flag => cases flag <;> simp

theorem valueSchema_eq_some {t : Schema} :
    s.valueSchema = some t ↔ s.additional = some (.described t) := by
  rw [Schema.valueSchema]
  cases s.additional with
  | none => simp
  | some additional => cases additional <;> simp

/-- A field for properties comes from one of them. -/
theorem exists_of_mem_fieldsFor {R : Schema → TypeId → Prop} {required : List String}
    {properties : List (String × Schema)} {ids : List TypeId}
    (h : List.Forall₂ (fun entry id => R entry.2 id) properties ids) {field : Field}
    (hfield : field ∈ fieldsFor required properties ids) :
    ∃ entry ∈ properties, R entry.2 field.type ∧ field.name = entry.1 ∧
      field.required = required.contains entry.1 := by
  induction h with
  | nil => cases hfield
  | @cons entry id properties ids hid _ ih =>
    rcases List.mem_cons.1 hfield with rfl | hfield
    · exact ⟨entry, List.mem_cons_self, hid, rfl, rfl⟩
    · obtain ⟨entry', hentry, h⟩ := ih hfield
      exact ⟨entry', List.mem_cons_of_mem _ hentry, h⟩

/-- Every property has a field. -/
theorem exists_field_of_mem {R : Schema → TypeId → Prop} {required : List String}
    {properties : List (String × Schema)} {ids : List TypeId}
    (h : List.Forall₂ (fun entry id => R entry.2 id) properties ids) {entry : String × Schema}
    (hentry : entry ∈ properties) :
    ∃ field ∈ fieldsFor required properties ids, R entry.2 field.type ∧ field.name = entry.1 ∧
      field.required = required.contains entry.1 := by
  induction h with
  | nil => cases hentry
  | @cons first id properties ids hid _ ih =>
    rcases List.mem_cons.1 hentry with rfl | hentry
    · exact ⟨_, List.mem_cons_self, hid, rfl, rfl⟩
    · obtain ⟨field, hfield, h⟩ := ih hentry
      exact ⟨field, List.mem_cons_of_mem _ hfield, h⟩

/-! ## From schemas to nodes -/

variable {b : Building} {id : TypeId} {kind : TypeKind}

/-- The nodes that a schema has, with the values that they are shown to admit. -/
inductive Holds (schemas : Dict Schema) (b : Building) : TypeId → Json → Prop
  /-- The node of a schema. -/
  | node {s : Schema} {id : TypeId} {value : Json} (hs : Plain schemas s)
      (hid : Represents b s id) (h : Satisfies schemas s value) : Holds schemas b id value
  /-- The node of a named schema. -/
  | named {name : String} {s : Schema} {id : TypeId} {value : Json}
      (hid : Dict.get? b.placed name = some id) (hs : Dict.get? schemas name = some s)
      (h : Satisfies schemas s value) : Holds schemas b id value
  /-- The node of a schema without its null. -/
  | inner {s : Schema} {kind : TypeKind} {id : TypeId} {value : Json} (hs : Plain schemas s)
      (hid : IsAnonymous b.graph id kind) (hkind : Shaped (Represents b) b s kind)
      (h : Matches schemas (Satisfies schemas) s value) : Holds schemas b id value
  /-- The node for one of several names of types. -/
  | typed {s : Schema} {name : String} {kind : TypeKind} {id : TypeId} {value : Json}
      (hs : Plain schemas s) (hid : IsAnonymous b.graph id kind)
      (hkind : NameShaped (Represents b) b.graph s name kind)
      (h : OfType (Satisfies schemas) s name value) : Holds schemas b id value
  /-- A node of which nothing is known. -/
  | anything {id : TypeId} {value : Json} (hid : IsAnonymous b.graph id .unknown) :
      Holds schemas b id value
  /-- The node for null. -/
  | null {id : TypeId} (hid : IsAnonymous b.graph id (.primitive .null)) : Holds schemas b id .null

theorem Plain.here (hs : Plain schemas s) : s.parts = [] := (Schema.All.here hs).1

theorem Plain.alternatives (hs : Plain schemas s) :
    ∀ choice ∈ s.alternatives, Plain schemas choice := by
  cases hs with
  | intro _ _ _ _ halternatives _ => exact halternatives

theorem holds_of_optionalPlaced {s : Option Schema}
    (hid : OptionalPlaced (Represents b) b.graph s id) (hs : ∀ t, s = some t → Plain schemas t)
    (h : ∀ t, s = some t → Satisfies schemas t value) : Holds schemas b id value := by
  cases hid with
  | some hid => exact .node (hs _ rfl) hid (h _ rfl)
  | none hid => exact .anything hid

theorem admits_of_nameShaped {name : String} (hs : Plain schemas s)
    (hkind : NameShaped (Represents b) b.graph s name kind)
    (h : OfType (Satisfies schemas) s name value) : Admits (Holds schemas b) kind value := by
  cases hs with
  | intro _ hproperties hitems hadditional _ _ =>
    cases hkind with
    | array hitem =>
      obtain ⟨items, rfl, hall⟩ := h.of_array
      exact fun value hvalue =>
        holds_of_optionalPlaced hitem hitems fun item hsome => hall item hsome value hvalue
    | record hrecord hvalue =>
      obtain ⟨members, rfl, hobject⟩ := h.of_object
      intro member hmember
      refine holds_of_optionalPlaced hvalue (fun t ht => hadditional t (valueSchema_eq_some.1 ht))
        fun t ht => ?_
      rcases hobject with ⟨entry, -, hdescribed, hall⟩ | ⟨-, hallowed⟩ | ⟨hother, -⟩
      · rw [valueSchema_eq_some, hdescribed] at ht
        cases ht
        exact hall member hmember
      · rw [valueSchema_eq_some, hallowed] at ht
        cases ht
      · rw [isRecord_eq_false.2 hother] at hrecord
        cases hrecord
    | object hrecord hids =>
      obtain ⟨members, rfl, hobject⟩ := h.of_object
      rcases hobject with ⟨entry, hnone, hdescribed, -⟩ | ⟨hnone, hallowed⟩ | ⟨-, hall⟩
      · rw [isRecord_eq_true.2 ⟨hnone, .inr ⟨entry, hdescribed⟩⟩] at hrecord
        cases hrecord
      · rw [isRecord_eq_true.2 ⟨hnone, .inl hallowed⟩] at hrecord
        cases hrecord
      intro field hfield
      obtain ⟨entry, hentry, hid, hname, hrequired⟩ := exists_of_mem_fieldsFor hids hfield
      refine ⟨fun value hvalue => ?_, fun hpresent => ?_⟩
      · rw [hname] at hvalue
        exact .node (hproperties entry hentry) hid ((hall entry hentry).present value hvalue)
      · rw [hrequired] at hpresent
        rw [hname]
        exact (hall entry hentry).required (List.contains_iff_mem.1 hpresent)
    | scalar harray hobject =>
      cases h with
      | string => rfl
      | number => rfl
      | integer => rfl
      | boolean => rfl
      | null => rfl
      | array => exact absurd rfl harray
      | record => exact absurd rfl hobject
      | anyObject => exact absurd rfl hobject
      | object => exact absurd rfl hobject
      | unknown h =>
        rw [scalarShape.eq_def]
        split
        all_goals trivial

theorem admits_of_namesShaped {names : List String} (hs : Plain schemas s)
    (hnames : ∀ name, name ∈ names ↔ NamesType s name)
    (hkind : NamesShaped (Represents b) b.graph s names kind)
    (h : (∀ name, ¬NamesType s name) ∨
      ∃ name, NamesType s name ∧ OfType (Satisfies schemas) s name value) :
    Admits (Holds schemas b) kind value := by
  cases hkind with
  | unknown => trivial
  | @single name _ hkind =>
    obtain hnone | ⟨other, hother, h⟩ := h
    · exact absurd ((hnames name).1 List.mem_cons_self) (hnone name)
    · obtain rfl := List.mem_singleton.1 ((hnames other).2 hother)
      exact admits_of_nameShaped hs hkind h
  | several hlength hids =>
    obtain hnone | ⟨name, hname, h⟩ := h
    · have hnil : names = [] :=
        List.eq_nil_iff_forall_not_mem.2 fun name hname => hnone name ((hnames name).1 hname)
      rw [hnil] at hlength
      exact absurd hlength (by decide)
    · obtain ⟨id, hid, kind, hanonymous, hkind⟩ := exists_of_mem_left hids ((hnames name).2 hname)
      exact ⟨id, hid, .typed hs hanonymous hkind h⟩

theorem admits_of_ownShaped (hs : Plain schemas s) (href : s.keywords.reference = none)
    (hkind : OwnShaped (Represents b) b.graph s kind)
    (h : Matches schemas (Satisfies schemas) s value) : Admits (Holds schemas b) kind value := by
  cases hkind with
  | alternatives halternatives hids =>
    obtain ⟨choice, hchoice, h⟩ := h.of_alternatives href halternatives
    obtain ⟨id, hid, hrepresents⟩ := exists_of_mem_left hids hchoice
    exact ⟨id, hid, .node (hs.alternatives choice hchoice) hrepresents h⟩
  | @constant constant halternatives hconstant =>
    obtain ⟨other, hother, h⟩ | ⟨hnone, -⟩ | ⟨hnone, -⟩ := h.of_no_alternatives href halternatives
    · obtain rfl := Option.some.inj (hconstant.symm.trans hother)
      exact ⟨constant, List.mem_cons_self, h⟩
    all_goals exact absurd (hconstant.symm.trans hnone) (Option.some_ne_none _)
  | values halternatives hconstant hvalues =>
    obtain ⟨_, hsome, -⟩ | ⟨-, h⟩ | ⟨-, hnone, -⟩ := h.of_no_alternatives href halternatives
    · exact absurd (hsome.symm.trans hconstant) (Option.some_ne_none _)
    · exact h
    · exact absurd hnone hvalues
  | names halternatives hconstant hvalues hnames =>
    obtain ⟨_, hsome, -⟩ | ⟨-, listed, hlisted, -⟩ | ⟨-, -, h⟩ :=
      h.of_no_alternatives href halternatives
    · exact absurd (hsome.symm.trans hconstant) (Option.some_ne_none _)
    · rw [hvalues] at hlisted
      exact absurd hlisted List.not_mem_nil
    · exact admits_of_namesShaped hs (fun _ => mem_typeNames) hnames h

theorem admits_of_shaped (hs : Plain schemas s) (hkind : Shaped (Represents b) b s kind)
    (h : Matches schemas (Satisfies schemas) s value) : Admits (Holds schemas b) kind value := by
  cases hkind with
  | reference href htarget =>
    obtain ⟨name, hname, hplaced⟩ := htarget
    obtain ⟨other, named, hother, hnamed, h⟩ := h.of_reference href
    obtain rfl := Option.some.inj (hname.symm.trans hother)
    exact ⟨_, List.mem_cons_self, .named hplaced hnamed h⟩
  | merged _ hparts => exact absurd hs.here hparts
  | own href _ hkind => exact admits_of_ownShaped hs href hkind h

/-- A node with null admits what the node admits, and null. -/
theorem WithNull.admits {inner : TypeId} {nullable : Bool}
    (hid : WithNull b.graph inner nullable id)
    (h : (nullable = true ∧ value = .null) ∨
      (Holds schemas b inner value ∧ Admits (Holds schemas b) (b.graph.kind inner) value)) :
    Admits (Holds schemas b) (b.graph.kind id) value := by
  cases hid with
  | plain =>
    obtain ⟨hnullable, -⟩ | ⟨-, h⟩ := h
    · cases hnullable
    · exact h
  | null hnull =>
    obtain ⟨-, rfl⟩ | ⟨-, h⟩ := h
    · rw [hnull]
      rfl
    · exact h
  | union hnull hid =>
    rw [hid.kind]
    obtain ⟨-, rfl⟩ | ⟨h, -⟩ := h
    · exact ⟨_, List.mem_cons_of_mem _ List.mem_cons_self, .null hnull⟩
    · exact ⟨_, List.mem_cons_self, h⟩

/-- Nothing is merged in the named schemas, and all their references name schemas. -/
def AllPlain (schemas : Dict Schema) : Prop :=
  ∀ name s, Dict.get? schemas name = some s → Plain schemas s

theorem admits_of_named (hb : Consistent schemas [] b) (hall : AllPlain schemas) {name : String}
    (hid : Dict.get? b.placed name = some id) (hs : Dict.get? schemas name = some s)
    (h : Satisfies schemas s value) : Admits (Holds schemas b) (b.graph.kind id) value := by
  have hplain := hall name s hs
  have hfills := hb.filled name id s hid List.not_mem_nil hs
  generalize b.graph.kind id = kind at hfills
  cases hfills with
  | plain hnullable hkind =>
    rcases h.meets with ⟨hnullable', -⟩ | hmatches
    · exact absurd (hnullable'.symm.trans hnullable) (by decide)
    · exact admits_of_shaped hplain hkind hmatches
  | nullable _ hkind hinner hnull =>
    rcases h.meets with ⟨-, rfl⟩ | hmatches
    · exact ⟨_, List.mem_cons_of_mem _ List.mem_cons_self, .null hnull⟩
    · exact ⟨_, List.mem_cons_self, .inner hplain hinner hkind hmatches⟩

theorem holds_admits (hb : Consistent schemas [] b) (hall : AllPlain schemas)
    (h : Holds schemas b id value) : Admits (Holds schemas b) (b.graph.kind id) value := by
  cases h with
  | anything hid =>
    rw [hid.kind]
    trivial
  | null hid =>
    rw [hid.kind]
    rfl
  | typed hs hid hkind h =>
    rw [hid.kind]
    exact admits_of_nameShaped hs hkind h
  | inner hs hid hkind h =>
    rw [hid.kind]
    exact admits_of_shaped hs hkind h
  | named hid hs h => exact admits_of_named hb hall hid hs h
  | node hs hid h =>
    cases hid.stands with
    | reference href hinner hid =>
      refine hid.admits (h.meets.imp_right fun hmatches => ?_)
      obtain ⟨name, hname, hplaced⟩ := hinner
      obtain ⟨other, named, hother, hnamed, h⟩ := hmatches.of_reference href
      obtain rfl := Option.some.inj (hname.symm.trans hother)
      exact ⟨.named hplaced hnamed h, admits_of_named hb hall hplaced hnamed h⟩
    | shape href hinner hkind hid =>
      refine hid.admits (h.meets.imp_right fun hmatches => ⟨.inner hs hinner hkind hmatches, ?_⟩)
      rw [hinner.kind]
      exact admits_of_shaped hs hkind hmatches

theorem conforms_of_satisfies (hb : Consistent schemas [] b) (hall : AllPlain schemas)
    (hs : Plain schemas s) (hid : Represents b s id) (h : Satisfies schemas s value) :
    Conforms b.graph id value :=
  ⟨Holds schemas b, fun _ _ h => holds_admits hb hall h, .node hs hid h⟩

/-! ## From nodes to schemas -/

/-- The schemas that a node stands for, with the values that conform to the node. -/
inductive Recovered (schemas : Dict Schema) (b : Building) : Schema → Json → Prop
  /-- The node of a schema. -/
  | node {s : Schema} {id : TypeId} {value : Json} (hs : Plain schemas s) (hid : Represents b s id)
      (h : Conforms b.graph id value) : Recovered schemas b s value
  /-- The node of a named schema. -/
  | named {name : String} {s : Schema} {id : TypeId} {value : Json}
      (hid : Dict.get? b.placed name = some id) (hs : Dict.get? schemas name = some s)
      (h : Conforms b.graph id value) : Recovered schemas b s value

theorem ofType_of_admits {name : String} (hs : Plain schemas s)
    (hkind : NameShaped (Represents b) b.graph s name kind)
    (h : Admits (Conforms b.graph) kind value) : OfType (Recovered schemas b) s name value := by
  cases hs with
  | intro _ hproperties hitems hadditional _ _ =>
    cases hkind with
    | array hitem =>
      cases value with
      | array items =>
        refine .array fun item hsome value hvalue => ?_
        rw [hsome] at hitem
        cases hitem with
        | some hid => exact .node (hitems item hsome) hid (h value hvalue)
      | _ => exact h.elim
    | record hrecord hvalue =>
      cases value with
      | object members =>
        obtain ⟨hnone, hallowed | ⟨entry, hdescribed⟩⟩ := isRecord_eq_true.1 hrecord
        · exact .anyObject hnone hallowed
        · refine .record hnone hdescribed fun member hmember => ?_
          rw [valueSchema_eq_some.2 hdescribed] at hvalue
          cases hvalue with
          | some hid => exact .node (hadditional entry hdescribed) hid (h member hmember)
      | _ => exact h.elim
    | object hrecord hids =>
      cases value with
      | object members =>
        refine .object (isRecord_eq_false.1 hrecord) fun entry hentry => ?_
        obtain ⟨field, hfield, hid, hname, hrequired⟩ := exists_field_of_mem hids hentry
        have hadmits := h field hfield
        refine ⟨fun value hvalue => ?_, fun hpresent => ?_⟩
        · rw [← hname] at hvalue
          exact .node (hproperties entry hentry) hid (hadmits.present value hvalue)
        · rw [← hname]
          refine hadmits.required ?_
          rw [hrequired]
          exact List.contains_iff_mem.2 hpresent
      | _ => exact h.elim
    | scalar harray hobject =>
      rw [scalarShape.eq_def] at h
      split at h
      · cases value <;> first | exact .string _ | cases h
      · cases value <;> first | exact .number _ | cases h
      · cases value <;> first | exact .integer _ | cases h
      · cases value <;> first | exact .boolean _ | cases h
      · cases value <;> first | exact .null | cases h
      · exact .unknown (by simp_all)

theorem matches_of_admits (hb : Consistent schemas [] b) (hs : Plain schemas s)
    (hkind : Shaped (Represents b) b s kind) (h : Admits (Conforms b.graph) kind value) :
    Matches schemas (Recovered schemas b) s value := by
  cases hkind with
  | reference href htarget =>
    obtain ⟨name, hname, hplaced⟩ := htarget
    obtain ⟨named, hnamed⟩ := hb.known name _ hplaced
    obtain ⟨member, hmember, h⟩ := h
    rw [List.mem_singleton.1 hmember] at h
    exact .reference href hname hnamed (.named hplaced hnamed h)
  | merged _ hparts => exact absurd hs.here hparts
  | own href _ hkind =>
    cases hkind with
    | alternatives halternatives hids =>
      obtain ⟨id, hmember, h⟩ := h
      obtain ⟨choice, hchoice, hid⟩ := exists_of_mem_right hids hmember
      exact .alternative href hchoice (.node (hs.alternatives choice hchoice) hid h)
    | constant halternatives hconstant =>
      obtain ⟨listed, hlisted, h⟩ := h
      rw [List.mem_singleton.1 hlisted] at h
      exact .constant href halternatives hconstant h
    | values halternatives hconstant hvalues =>
      obtain ⟨listed, hlisted, h⟩ := h
      exact .listed href halternatives hconstant hlisted h
    | names halternatives hconstant hvalues hnames =>
      generalize hnamesEq : typeNames s = names at hnames
      cases hnames with
      | unknown =>
        refine .anything href halternatives hconstant hvalues fun name hname => ?_
        have := mem_typeNames.2 hname
        rw [hnamesEq] at this
        cases this
      | @single name _ hkind =>
        have hname : NamesType s name :=
          mem_typeNames.1 (by rw [hnamesEq]; exact List.mem_cons_self)
        exact .ofType href halternatives hconstant hvalues hname (ofType_of_admits hs hkind h)
      | several _ hids =>
        obtain ⟨id, hmember, h⟩ := h
        obtain ⟨name, hname, shape, hid, hkind⟩ := exists_of_mem_right hids hmember
        have hadmits := h.admits
        rw [hid.kind] at hadmits
        rw [← hnamesEq] at hname
        exact .ofType href halternatives hconstant hvalues (mem_typeNames.1 hname)
          (ofType_of_admits hs hkind hadmits)

theorem value_eq_null {null : TypeId} (hnull : b.graph.kind null = .primitive .null)
    (h : Conforms b.graph null value) : value = .null := by
  have hadmits := h.admits
  rw [hnull] at hadmits
  cases value with
  | null => rfl
  | _ => cases hadmits

/-- What conforms to a node with null conforms to the node or is null. -/
theorem WithNull.conforms {inner : TypeId} {nullable : Bool}
    (hid : WithNull b.graph inner nullable id) (h : Conforms b.graph id value) :
    (nullable = true ∧ value = .null) ∨ Conforms b.graph inner value := by
  cases hid with
  | plain => exact .inr h
  | null hnull => exact .inl ⟨rfl, value_eq_null hnull h⟩
  | union hnull hid =>
    have hadmits := h.admits
    rw [hid.kind] at hadmits
    obtain ⟨member, hmember, h⟩ := hadmits
    rcases List.mem_cons.1 hmember with rfl | hmember
    · exact .inr h
    · rw [List.mem_singleton.1 hmember] at h
      exact .inl ⟨rfl, value_eq_null hnull.kind h⟩

theorem recovered_meets (hb : Consistent schemas [] b) (hall : AllPlain schemas)
    (h : Recovered schemas b s value) : Meets schemas (Recovered schemas b) s value := by
  cases h with
  | node hs hid h =>
    cases hid.stands with
    | reference href hinner hid =>
      refine (hid.conforms h).imp id fun h => ?_
      obtain ⟨name, hname, hplaced⟩ := hinner
      obtain ⟨named, hnamed⟩ := hb.known name _ hplaced
      exact .reference href hname hnamed (.named hplaced hnamed h)
    | shape href hinner hkind hid =>
      refine (hid.conforms h).imp id fun h => ?_
      have hadmits := h.admits
      rw [hinner.kind] at hadmits
      exact matches_of_admits hb hs hkind hadmits
  | @named name _ id _ hid hs h =>
    have hplain := hall name s hs
    have hadmits := h.admits
    have hfills := hb.filled name id s hid List.not_mem_nil hs
    generalize b.graph.kind id = kind at hfills hadmits
    cases hfills with
    | plain hnullable hkind => exact .inr (matches_of_admits hb hplain hkind hadmits)
    | nullable hnullable hkind hinner hnull =>
      obtain ⟨member, hmember, h⟩ := hadmits
      rcases List.mem_cons.1 hmember with rfl | hmember
      · have hadmits := h.admits
        rw [hinner.kind] at hadmits
        exact .inr (matches_of_admits hb hplain hkind hadmits)
      · rw [List.mem_singleton.1 hmember] at h
        exact .inl ⟨hnullable, value_eq_null hnull.kind h⟩

theorem satisfies_of_conforms (hb : Consistent schemas [] b) (hall : AllPlain schemas)
    (hs : Plain schemas s) (hid : Represents b s id) (h : Conforms b.graph id value) :
    Satisfies schemas s value :=
  ⟨Recovered schemas b, fun _ _ h => recovered_meets hb hall h, .node hs hid h⟩

/-- The values that conform to a node are those that satisfy the schema it stands for. -/
theorem conforms_iff_satisfies (hb : Consistent schemas [] b) (hall : AllPlain schemas)
    (hs : Plain schemas s) (hid : Represents b s id) :
    Conforms b.graph id value ↔ Satisfies schemas s value :=
  ⟨satisfies_of_conforms hb hall hs hid, conforms_of_satisfies hb hall hs hid⟩

/-! ## The walk -/

theorem Plain.resolved (hs : Plain schemas s) : s.All (HeadResolved schemas fun _ => False) :=
  hs.mono fun _ h reference href => .inl (h.2 reference href)

theorem AllPlain.resolved (hall : AllPlain schemas) : AllResolved schemas fun _ => False :=
  fun name s hs => (hall name s hs).resolved

/-- **The node of a schema decides about values as the schema does.**  Where nothing is merged and
all references name schemas, mapping a schema succeeds, whatever has been mapped before, and so does
mapping the named schemas.  Whatever is mapped later, the walk accepts every value that satisfies
the schema, and it accepts no other value below which no descent is longer than the walk is deep. -/
theorem mapSchema_faithful (hall : AllPlain schemas) (hs : Plain schemas s) {b : Building}
    (hb : Leads schemas Building.empty b) :
    (∃ c, mapComponents schemas b = .ok ((), c)) ∧
      ∃ id c, mapSchema schemas s b = .ok (id, c) ∧ ∀ d, Leads schemas c d → ∀ value,
        (Satisfies schemas s value → check d.graph id value = .ok ()) ∧
          ((∀ n, Descent d.graph id value n → n ≤ depthLimit) →
            check d.graph id value = .ok () → Satisfies schemas s value) := by
  have hconsistent := (hb.advances (consistent_empty schemas)).consistent
  obtain ⟨_, c, hcomponents, -⟩ := (mapComponents_goes hall.resolved hconsistent).exists_ok
  obtain ⟨id, d, hschema, hbd, hid⟩ :=
    (mapSchema_goes hall.resolved hs.resolved hconsistent).exists_ok
  refine ⟨⟨c, hcomponents⟩, id, d, hschema, fun e hde value => ?_⟩
  have hadvances := hde.advances hbd.consistent
  have hid' := hid.later hadvances.later hbd.consistent.placedNodes
  have hiff : Conforms e.graph id value ↔ Satisfies schemas s value :=
    conforms_iff_satisfies hadvances.consistent hall hs hid'
  exact ⟨fun h => (hiff.2 h).check, fun hdepth h => hiff.1 (conforms_of_check hdepth h)⟩

/-! ## An example -/

/-- A reference to persons, or null. -/
def friend : Schema :=
  .ofKeywords { reference := some "#/components/schemas/Person", nullable := true }

/-- A person with a name and maybe a friend. -/
def person : Schema :=
  { Schema.ofKeywords { types := some ["object"], required := ["name"] } with
    properties := [("friend", friend), ("name", .ofKeywords { types := some ["string"] })] }

/-- Persons alone. -/
def people : Dict Schema := [("Person", person)]

theorem plain_ofKeywords {keywords : Keywords}
    (h : ∀ reference, keywords.reference = some reference →
      ∃ name, referredName? .schemas reference = some name ∧ Dict.contains schemas name = true) :
    Plain schemas (.ofKeywords keywords) := Schema.all_ofKeywords ⟨rfl, h⟩

theorem plain_friend : Plain people friend := by
  refine plain_ofKeywords fun reference href => ⟨"Person", ?_, by decide⟩
  cases href
  decide +kernel

theorem plain_person : Plain people person := by
  refine .intro ⟨rfl, fun _ h => nomatch h⟩ (fun entry hentry => ?_) (fun _ h => nomatch h)
    (fun _ h => nomatch h)
    (fun _ h => absurd h List.not_mem_nil) fun _ h => absurd h List.not_mem_nil
  rcases List.mem_cons.1 hentry with rfl | hentry
  · exact plain_friend
  · rw [List.mem_singleton.1 hentry]
    exact plain_ofKeywords fun _ h => nomatch h

/-- Persons and their friends in circles. -/
theorem mapSchema_faithful_people :
    AllPlain people ∧ Plain people friend ∧
      (∃ c, mapComponents people Building.empty = .ok ((), c)) ∧
        ∃ id c, mapSchema people friend Building.empty = .ok (id, c) ∧
          ∀ d, Leads people c d → ∀ value,
            (Satisfies people friend value → check d.graph id value = .ok ()) ∧
              ((∀ n, Descent d.graph id value n → n ≤ depthLimit) →
                check d.graph id value = .ok () → Satisfies people friend value) := by
  have hall : AllPlain people := by
    intro name s hs
    rw [people, Dict.get?_cons] at hs
    split at hs
    · cases hs
      exact plain_person
    · cases hs
  exact ⟨hall, plain_friend, mapSchema_faithful hall plain_friend .refl⟩

end TypedClient.OpenApi
