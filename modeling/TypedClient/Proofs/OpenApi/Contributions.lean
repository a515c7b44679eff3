import TypedClient.Proofs.OpenApi.MergeOrder

/-!
# Objects that contribute to an object

The object that a schema stands for is laid together from the object schemas among what it merges,
refers to or has as its only alternative.

* `Contributes` says which object schemas these are, and `Listed` which names the schemas list as
  required, wherever the lists stand; `Contributes.listed` joins the two;
* `Shows` says that a shape is an object just if there are contributions, with the names that these
  declare and the required names that these both declare and list;
* `NamesShaped.shows` and `shows_merged` are the cases of the names of types and of merging, where
  `requires_overlayAll` says that fields stay required when others are laid over them.
-/

set_option autoImplicit false

namespace TypedClient.OpenApi

open TypedClient.Types

/-! ## Required fields -/

/-- A field of the name is required. -/
def Requires (fields : List Field) (name : String) : Prop :=
  ∃ field ∈ fields, field.name = name ∧ field.required = true

variable {fields : List Field} {name : String}

theorem requires_append (fields others : List Field) (name : String) :
    Requires (fields ++ others) name ↔ Requires fields name ∨ Requires others name := by
  simp only [Requires, List.mem_append, or_and_right, exists_or]

theorem requires_cons (field : Field) (fields : List Field) (name : String) :
    Requires (field :: fields) name ↔
      (field.name = name ∧ field.required = true) ∨ Requires fields name :=
  List.exists_mem_cons_iff _ _ _

theorem requires_flatten (all : List (List Field)) (name : String) :
    Requires all.flatten name ↔ ∃ fields ∈ all, Requires fields name := by
  simp only [Requires, List.mem_flatten]
  constructor
  · rintro ⟨field, ⟨fields, hfields, hfield⟩, h⟩
    exact ⟨fields, hfields, field, hfield, h⟩
  · rintro ⟨fields, hfields, field, hfield, h⟩
    exact ⟨field, ⟨fields, hfields, hfield⟩, h⟩

/-- One more field makes its name required, if it is required itself. -/
theorem requires_overlayField (fields : List Field) (field : Field) (name : String) :
    Requires (overlayField fields field) name ↔
      Requires fields name ∨ (field.name = name ∧ field.required = true) := by
  induction fields with
  | nil => rw [overlayField, requires_cons, or_comm]
  | cons first rest ih =>
    rw [overlayField]
    by_cases h : first.name = field.name
    · rw [if_pos h, requires_cons, requires_cons, h, Bool.or_eq_true]
      tauto
    · rw [if_neg h, requires_cons, requires_cons, ih, or_assoc]

/-- A name is required in the end if any field of it was. -/
theorem requires_overlayAll (fields : List Field) (name : String) :
    Requires (overlayAll fields) name ↔ Requires fields name := by
  induction fields using List.reverseRecOn with
  | nil => exact Iff.rfl
  | append_singleton fields field ih =>
    rw [overlayAll_concat, requires_overlayField, ih, requires_append, requires_cons]
    simp [Requires]

/-- No name gets lost, and none is added. -/
theorem mem_names_overlayAll (fields : List Field) (name : String) :
    name ∈ (overlayAll fields).map Field.name ↔ name ∈ fields.map Field.name := by
  induction fields using List.reverseRecOn with
  | nil => exact Iff.rfl
  | append_singleton fields field ih =>
    rw [overlayAll_concat, names_overlayField, List.map_append, List.mem_append]
    have hfield : name ∈ [field].map Field.name ↔ name = field.name := List.mem_singleton
    rw [hfield]
    split
    · rename_i hmem
      refine ih.trans (or_iff_left_of_imp ?_).symm
      rintro rfl
      exact ih.1 hmem
    · rw [List.mem_append, ih, List.mem_singleton]

/-- Where each name is there once, its field tells whether it is required. -/
theorem required_iff_requires (hnodup : (fields.map Field.name).Nodup) {field : Field}
    (hfield : field ∈ fields) : field.required = true ↔ Requires fields field.name := by
  refine ⟨fun h => ⟨field, hfield, rfl, h⟩, ?_⟩
  rintro ⟨other, hother, hname, hrequired⟩
  rwa [List.inj_on_of_nodup_map hnodup hother hfield hname] at hrequired

/-! ## Contributions -/

/-- The schema has a property of the name. -/
def Schema.Declares (s : Schema) (name : String) : Prop := name ∈ s.properties.map Prod.fst

/-- The reference names the schema. -/
def Target (schemas : Dict Schema) (reference : String) (t : Schema) : Prop :=
  ∃ name, referredName? .schemas reference = some name ∧ Dict.get? schemas name = some t

/-- The second schema is one of the object schemas that make up the object that the first one stands
for, null of the first one left aside. -/
inductive Contributes (schemas : Dict Schema) : Schema → Schema → Prop
  /-- An object schema of its own. -/
  | own {s : Schema} (href : s.keywords.reference = none) (hparts : s.parts = [])
      (hobject : s.SaysObject) (hrecord : s.isRecord = false) : Contributes schemas s s
  /-- What the schema that is referred to has. -/
  | reference {s t o : Schema} {reference : String} (href : s.keywords.reference = some reference)
      (ht : Target schemas reference t) (hnullable : t.keywords.nullable = false)
      (h : Contributes schemas t o) : Contributes schemas s o
  /-- What the only alternative has. -/
  | alternative {s t o : Schema} (href : s.keywords.reference = none) (hparts : s.parts = [])
      (ht : s.alternatives = [t]) (hnullable : t.keywords.nullable = false)
      (h : Contributes schemas t o) : Contributes schemas s o
  /-- What a schema that is merged has; the properties beside `allOf` are merged too. -/
  | merged {s t o : Schema} (href : s.keywords.reference = none) (hparts : s.parts ≠ [])
      (ht : t ∈ s.merged) (hnullable : t.keywords.nullable = false)
      (h : Contributes schemas t o) : Contributes schemas s o

/-- The schema lists the name as required, itself or in one of the schemas that it merges, refers to
or has as its only alternative, whatever properties these have. -/
inductive Listed (schemas : Dict Schema) : Schema → String → Prop
  /-- In its own list. -/
  | own {s : Schema} {name : String} (href : s.keywords.reference = none)
      (h : name ∈ s.keywords.required) : Listed schemas s name
  /-- In the schema that is referred to. -/
  | reference {s t : Schema} {name reference : String}
      (href : s.keywords.reference = some reference) (ht : Target schemas reference t)
      (h : Listed schemas t name) : Listed schemas s name
  /-- In the only alternative. -/
  | alternative {s t : Schema} {name : String} (href : s.keywords.reference = none)
      (ht : s.alternatives = [t]) (h : Listed schemas t name) : Listed schemas s name
  /-- In a schema that is merged. -/
  | part {s t : Schema} {name : String} (href : s.keywords.reference = none) (ht : t ∈ s.parts)
      (h : Listed schemas t name) : Listed schemas s name

variable {schemas : Dict Schema} {s t o : Schema}

theorem mem_merged : t ∈ s.merged ↔ t ∈ s.parts ∨ (s.properties ≠ [] ∧ t = s.alone) := by
  rw [Schema.merged, List.mem_append]
  by_cases hproperties : s.properties = []
  · simp [hproperties]
  · simp [hproperties]

/-- What is listed apart from merging is listed. -/
theorem Listed.of_alone (h : Listed schemas s.alone name) : Listed schemas s name := by
  generalize halone : s.alone = u at h
  cases h with
  | own href hlisted =>
    subst halone
    exact .own href hlisted
  | reference href ht hlisted =>
    subst halone
    exact .reference href ht hlisted
  | alternative href ht hlisted =>
    subst halone
    exact .alternative href ht hlisted
  | part _ ht =>
    subst halone
    exact absurd ht List.not_mem_nil

/-- What an object schema lists is listed by the schemas that it contributes to. -/
theorem Contributes.listed (h : Contributes schemas s o) (hname : name ∈ o.keywords.required) :
    Listed schemas s name := by
  induction h with
  | own href => exact .own href hname
  | reference href ht _ _ ih => exact .reference href ht (ih hname)
  | alternative href _ ht _ _ ih => exact .alternative href ht (ih hname)
  | merged href _ ht _ _ ih =>
    rcases mem_merged.1 ht with ht | ⟨-, rfl⟩
    · exact .part href ht (ih hname)
    · exact (ih hname).of_alone

/-! ### Where contributions come from -/

theorem contributes_reference_iff {reference : String}
    (href : s.keywords.reference = some reference) :
    Contributes schemas s o ↔
      ∃ t, Target schemas reference t ∧ t.keywords.nullable = false ∧ Contributes schemas t o := by
  constructor
  · intro h
    cases h with
    | reference href' ht hnullable h =>
      rw [href, Option.some.injEq] at href'
      subst href'
      exact ⟨_, ht, hnullable, h⟩
    | own href' | alternative href' | merged href' =>
      rw [href] at href'
      cases href'
  · rintro ⟨t, ht, hnullable, h⟩
    exact .reference href ht hnullable h

theorem contributes_merged_iff (href : s.keywords.reference = none) (hparts : s.parts ≠ []) :
    Contributes schemas s o ↔
      ∃ t ∈ s.merged, t.keywords.nullable = false ∧ Contributes schemas t o := by
  constructor
  · intro h
    cases h with
    | merged _ _ ht hnullable h => exact ⟨_, ht, hnullable, h⟩
    | reference href' =>
      rw [href] at href'
      cases href'
    | own _ hparts' | alternative _ hparts' => exact absurd hparts' hparts
  · rintro ⟨t, ht, hnullable, h⟩
    exact .merged href hparts ht hnullable h

/-- A schema that neither refers nor merges has its own contribution or that of its only
alternative. -/
theorem contributes_own_iff (href : s.keywords.reference = none) (hparts : s.parts = []) :
    Contributes schemas s o ↔ (s.SaysObject ∧ s.isRecord = false ∧ o = s) ∨
      ∃ t, s.alternatives = [t] ∧ t.keywords.nullable = false ∧ Contributes schemas t o := by
  constructor
  · intro h
    cases h with
    | own _ _ hobject hrecord => exact .inl ⟨hobject, hrecord, rfl⟩
    | alternative _ _ ht hnullable h => exact .inr ⟨_, ht, hnullable, h⟩
    | reference href' =>
      rw [href] at href'
      cases href'
    | merged _ hparts' => exact absurd hparts hparts'
  · rintro (⟨hobject, hrecord, rfl⟩ | ⟨t, ht, hnullable, h⟩)
    · exact .own href hparts hobject hrecord
    · exact .alternative href hparts ht hnullable h

/-! ## Shapes that show contributions -/

/-- The shape is an object just if there are contributions; it has the names that they declare, and
requires those that a contribution both declares and lists. -/
structure Shows (C : Schema → Prop) (kind : TypeKind) : Prop where
  /-- When it is an object. -/
  object : (∃ fields, kind = .object fields) ↔ ∃ o, C o
  /-- Which names it has. -/
  declared : ∀ name, (∃ fields, kind = .object fields ∧ name ∈ fields.map Field.name) ↔
    ∃ o, C o ∧ o.Declares name
  /-- Which of these it requires. -/
  required : ∀ name, (∃ fields, kind = .object fields ∧ Requires fields name) ↔
    ∃ o, C o ∧ o.Declares name ∧ name ∈ o.keywords.required

variable {C D : Schema → Prop} {kind : TypeKind} {g : TypeGraph} {ids : List TypeId}

theorem Shows.congr (h : Shows C kind) (hCD : ∀ o, C o ↔ D o) : Shows D kind := by
  obtain rfl : C = D := funext fun o => propext (hCD o)
  exact h

/-- A shape that is no object shows that there are no contributions. -/
theorem shows_of_ne_object (hkind : ∀ fields, kind ≠ .object fields) (hC : ∀ o, ¬C o) :
    Shows C kind where
  object := iff_of_false (fun ⟨fields, h⟩ => hkind fields h) fun ⟨o, h⟩ => hC o h
  declared _ := iff_of_false (fun ⟨fields, h, _⟩ => hkind fields h) fun ⟨o, h, _⟩ => hC o h
  required _ := iff_of_false (fun ⟨fields, h, _⟩ => hkind fields h) fun ⟨o, h, _⟩ => hC o h

/-- What is known of an object by what it shows. -/
theorem Shows.of_object (h : Shows C (.object fields)) :
    (∃ o, C o) ∧ (∀ name, name ∈ fields.map Field.name ↔ ∃ o, C o ∧ o.Declares name) ∧
      ∀ name, Requires fields name ↔
        ∃ o, C o ∧ o.Declares name ∧ name ∈ o.keywords.required := by
  refine ⟨h.object.1 ⟨fields, rfl⟩, fun name => ?_, fun name => ?_⟩
  · rw [← h.declared]
    simp
  · rw [← h.required]
    simp

theorem shows_object (hC : ∃ o, C o)
    (hdeclared : ∀ name, name ∈ fields.map Field.name ↔ ∃ o, C o ∧ o.Declares name)
    (hrequired : ∀ name, Requires fields name ↔
      ∃ o, C o ∧ o.Declares name ∧ name ∈ o.keywords.required) : Shows C (.object fields) where
  object := iff_of_true ⟨fields, rfl⟩ hC
  declared name := by
    rw [← hdeclared]
    simp
  required name := by
    rw [← hrequired]
    simp

/-! ### Own properties -/

theorem names_fieldsFor {R : (String × Schema) → TypeId → Prop} {required : List String}
    {properties : List (String × Schema)} (h : List.Forall₂ R properties ids) :
    (fieldsFor required properties ids).map Field.name = properties.map Prod.fst := by
  induction h with
  | nil => rfl
  | cons _ _ ih =>
    rw [fieldsFor, List.zipWith_cons_cons, List.map_cons, List.map_cons, ← ih, fieldsFor]

theorem requires_fieldsFor {R : (String × Schema) → TypeId → Prop} {required : List String}
    {properties : List (String × Schema)} (h : List.Forall₂ R properties ids) (name : String) :
    Requires (fieldsFor required properties ids) name ↔
      name ∈ properties.map Prod.fst ∧ name ∈ required := by
  induction h with
  | nil => simp [fieldsFor, Requires]
  | @cons entry id properties ids _ _ ih =>
    rw [fieldsFor] at ih ⊢
    rw [List.zipWith_cons_cons, requires_cons, ih, List.map_cons, List.mem_cons, or_and_right]
    refine or_congr_left ?_
    rw [List.contains_iff_mem, eq_comm]
    refine and_congr_right fun hname => ?_
    rw [hname]

/-- The properties of an object schema are its contribution. -/
theorem shows_fieldsFor {R : (String × Schema) → TypeId → Prop}
    (h : List.Forall₂ R s.properties ids) (hC : ∀ o, C o ↔ o = s) :
    Shows C (.object (fieldsFor s.keywords.required s.properties ids)) := by
  refine shows_object ⟨s, (hC s).2 rfl⟩ (fun name => ?_) fun name => ?_
  · simp only [hC, exists_eq_left, names_fieldsFor h, Schema.Declares]
  · simp only [hC, exists_eq_left, requires_fieldsFor h, Schema.Declares]

/-- A name of a type that is not that of objects gives no object. -/
theorem scalarShape_ne_object (name : String) (fields : List Field) :
    scalarShape name ≠ .object fields := by
  rw [scalarShape.eq_def]
  split <;> exact TypeKind.noConfusion

/-- The shape of names of types shows the properties, if these say that values are objects. -/
theorem NamesShaped.shows {R : Schema → TypeId → Prop}
    (hkind : NamesShaped R g s (typeNames s) kind)
    (hC : ∀ o, C o ↔ typeNames s = ["object"] ∧ s.isRecord = false ∧ o = s) : Shows C kind := by
  generalize typeNames s = names at hkind hC
  cases hkind with
  | unknown =>
    exact shows_of_ne_object (fun _ => TypeKind.noConfusion) fun o h => nomatch ((hC o).1 h).1
  | several hlength =>
    refine shows_of_ne_object (fun _ => TypeKind.noConfusion) fun o h => ?_
    rw [((hC o).1 h).1] at hlength
    exact absurd hlength (by decide)
  | @single name _ hname =>
    cases hname with
    | array =>
      refine shows_of_ne_object (fun _ => TypeKind.noConfusion) fun o h => ?_
      exact absurd ((hC o).1 h).1 (by decide)
    | record hrecord =>
      refine shows_of_ne_object (fun _ => TypeKind.noConfusion) fun o h => ?_
      exact absurd (hrecord.symm.trans ((hC o).1 h).2.1) Bool.noConfusion
    | object hrecord hids => exact shows_fieldsFor hids fun o => by simp [hC, hrecord]
    | scalar _ hobject =>
      refine shows_of_ne_object (scalarShape_ne_object name) fun o h => hobject ?_
      exact List.head_eq_of_cons_eq ((hC o).1 h).1

/-! ### Merging -/

/-- What is asked of the fields of an object among nodes is asked of the contributions to a schema,
if this is so for each node and its schema. -/
theorem exists_mem_declaredFields {D : Schema → Schema → Prop} {P : List Field → Prop}
    {Q : Schema → Prop} {members : List Schema}
    (h : List.Forall₂ (fun u id => (∃ fields, aliasedKind g id g.size = .object fields ∧
      P fields) ↔ ∃ o, D u o ∧ Q o) members ids) :
    (∃ fields ∈ declaredFields g ids, P fields) ↔ ∃ o, (∃ u ∈ members, D u o) ∧ Q o := by
  induction h with
  | nil => simp [declaredFields]
  | @cons u id members ids hid _ ih =>
    have hmembers : (∃ o, (∃ v ∈ u :: members, D v o) ∧ Q o) ↔
        (∃ o, D u o ∧ Q o) ∨ ∃ o, (∃ v ∈ members, D v o) ∧ Q o := by
      simp only [List.exists_mem_cons_iff, or_and_right, exists_or]
    rw [hmembers, ← ih, ← hid, declaredFields, List.filterMap_cons, declaredFields]
    cases haliased : aliasedKind g id g.size with
    | object fields => simp [fieldsOf?]
    | _ => simp [fieldsOf?]

variable {members : List Schema} {E : Schema → Schema → Prop}

/-- One of the nodes is an object just if something contributes. -/
theorem declaredFields_ne_nil_iff
    (h : List.Forall₂ (fun u id => Shows (E u) (aliasedKind g id g.size)) members ids) :
    declaredFields g ids ≠ [] ↔ ∃ o, ∃ u ∈ members, E u o := by
  have hiff := exists_mem_declaredFields (D := E) (P := fun _ => True) (Q := fun _ => True)
    (h.imp fun u id hid => by simpa using hid.object)
  simp only [and_true] at hiff
  refine ⟨fun hne => hiff.1 (List.exists_mem_of_ne_nil _ hne), fun hmember => ?_⟩
  obtain ⟨fields, hfields⟩ := hiff.2 hmember
  exact List.ne_nil_of_mem hfields

/-- Objects that are merged show all contributions. -/
theorem shows_merged
    (h : List.Forall₂ (fun u id => Shows (E u) (aliasedKind g id g.size)) members ids)
    (hobject : declaredFields g ids ≠ []) :
    Shows (fun o => ∃ u ∈ members, E u o)
      (.object (overlayAll (declaredFields g ids).flatten)) := by
  refine shows_object ((declaredFields_ne_nil_iff h).1 hobject) (fun name => ?_) fun name => ?_
  · rw [mem_names_overlayAll, ← exists_mem_declaredFields (h.imp fun u id hid => hid.declared name)]
    simp only [List.map_flatten, List.mem_flatten, List.mem_map, exists_exists_and_eq_and]
  · rw [requires_overlayAll, requires_flatten]
    exact exists_mem_declaredFields (h.imp fun u id hid => hid.required name)

end TypedClient.OpenApi
