import Mathlib.Data.List.Induction
import TypedClient.Proofs.OpenApi.Building
import TypedClient.Proofs.Types.AliasChains

/-!
# Merging shapes

Schemas that all have to hold are merged by laying the fields of their object types over each other.

* `nodup_overlayAll` and `mem_overlayAll_iff` say that each name is there once in the end and has
  the type that the last field of the name has;
* `mergedKind_eq_object_iff` says when what is merged is an object;
* `addable_mergedKind` says that a merged shape may be added to the graph it was made from.
-/

set_option autoImplicit false

namespace TypedClient.OpenApi

open TypedClient.Types

/-! ## Fields laid over each other -/

/-- Fields laid over each other in order. -/
def overlayAll (fields : List Field) : List Field := fields.foldl overlayField []

theorem mem_overlayField {fields : List Field} {field f : Field}
    (h : f ∈ overlayField fields field) :
    f.type = field.type ∨ f ∈ fields := by
  induction fields with
  | nil =>
    rw [overlayField, List.mem_singleton] at h
    exact .inl (by rw [h])
  | cons first rest ih =>
    rw [overlayField] at h
    split at h
    · rcases List.mem_cons.1 h with rfl | h
      · exact .inl rfl
      · exact .inr (List.mem_cons_of_mem _ h)
    · rcases List.mem_cons.1 h with rfl | h
      · exact .inr List.mem_cons_self
      · exact (ih h).imp id (List.mem_cons_of_mem _)

theorem type_of_mem_foldl {fields laid : List Field} {f : Field}
    (h : f ∈ fields.foldl overlayField laid) : ∃ f' ∈ laid ++ fields, f.type = f'.type := by
  induction fields generalizing laid with
  | nil => exact ⟨f, by simpa using h, rfl⟩
  | cons field fields ih =>
    obtain ⟨f', hf', htype⟩ := ih h
    rcases List.mem_append.1 hf' with hf' | hf'
    · rcases mem_overlayField hf' with heq | hf'
      · exact ⟨field, by simp, htype.trans heq⟩
      · exact ⟨f', List.mem_append_left _ hf', htype⟩
    · exact ⟨f', List.mem_append_right _ (List.mem_cons_of_mem _ hf'), htype⟩

/-- The type that the last field of the name has. -/
def lastType (fields : List Field) (name : String) : Option TypeId :=
  (fields.reverse.find? (·.name == name)).map Field.type

theorem lastType_concat (fields : List Field) (field : Field) (name : String) :
    lastType (fields ++ [field]) name
      = if field.name = name then some field.type else lastType fields name := by
  rw [lastType, List.reverse_append, List.reverse_singleton, List.singleton_append, List.find?_cons]
  by_cases h : field.name = name
  · rw [if_pos h, beq_iff_eq.2 h]
    rfl
  · rw [if_neg h, beq_eq_false_iff_ne.2 h, lastType]

theorem overlayAll_concat (fields : List Field) (field : Field) :
    overlayAll (fields ++ [field]) = overlayField (overlayAll fields) field := by
  rw [overlayAll, List.foldl_append, overlayAll]
  rfl

/-- The names after one more field has been laid over others. -/
theorem names_overlayField (fields : List Field) (field : Field) :
    (overlayField fields field).map Field.name
      = if field.name ∈ fields.map Field.name then fields.map Field.name
        else fields.map Field.name ++ [field.name] := by
  induction fields with
  | nil => rfl
  | cons first rest ih =>
    rw [overlayField]
    by_cases h : first.name = field.name
    · rw [if_pos h, List.map_cons, List.map_cons, if_pos (by rw [h]; exact List.mem_cons_self), h]
    · rw [if_neg h, List.map_cons, ih, List.map_cons]
      by_cases hmem : field.name ∈ rest.map Field.name
      · rw [if_pos hmem, if_pos (List.mem_cons_of_mem _ hmem)]
      · rw [if_neg hmem, if_neg, List.cons_append]
        rw [List.mem_cons, not_or]
        exact ⟨Ne.symm h, hmem⟩

/-- Each name is there once. -/
theorem nodup_overlayAll (fields : List Field) : ((overlayAll fields).map Field.name).Nodup := by
  induction fields using List.reverseRecOn with
  | nil => exact List.nodup_nil
  | append_singleton fields field ih =>
    rw [overlayAll_concat, names_overlayField]
    split
    · exact ih
    · rename_i hmem
      refine List.nodup_append.2 ⟨ih, List.nodup_singleton _, ?_⟩
      rintro name hname _ hfield rfl
      rw [List.mem_singleton.1 hfield] at hname
      exact hmem hname

/-- One more field decides on the type of its name and of no other. -/
theorem mem_overlayField_iff {fields : List Field} (hnodup : (fields.map Field.name).Nodup)
    (field : Field) (name : String) (type : TypeId) :
    (∃ f ∈ overlayField fields field, f.name = name ∧ f.type = type) ↔
      if field.name = name then field.type = type
      else ∃ f ∈ fields, f.name = name ∧ f.type = type := by
  induction fields with
  | nil =>
    rw [overlayField]
    split <;> simp_all
  | cons first rest ih =>
    rw [List.map_cons, List.nodup_cons] at hnodup
    rw [overlayField]
    by_cases hfirst : first.name = field.name
    · rw [if_pos hfirst, List.exists_mem_cons_iff, List.exists_mem_cons_iff]
      by_cases hname : field.name = name
      · have hrest : ¬∃ f ∈ rest, f.name = name ∧ f.type = type := by
          rintro ⟨f, hf, hfname, -⟩
          refine hnodup.1 ?_
          rw [hfirst, hname, ← hfname]
          exact List.mem_map_of_mem hf
        rw [if_pos hname, or_iff_left hrest]
        exact and_iff_right hname
      · rw [if_neg hname]
        have hold : ¬(first.name = name ∧ first.type = type) :=
          fun h => hname (hfirst.symm.trans h.1)
        have hnew : ¬(field.name = name ∧ field.type = type) := fun h => hname h.1
        rw [or_iff_right hold, or_iff_right hnew]
    · rw [if_neg hfirst, List.exists_mem_cons_iff, List.exists_mem_cons_iff, ih hnodup.2]
      by_cases hname : field.name = name
      · rw [if_pos hname, if_pos hname, or_iff_right]
        exact fun h => hfirst (h.1.trans hname.symm)
      · rw [if_neg hname, if_neg hname]

/-- A name has the type that its last field has. -/
theorem mem_overlayAll_iff (fields : List Field) (name : String) (type : TypeId) :
    (∃ f ∈ overlayAll fields, f.name = name ∧ f.type = type) ↔
      lastType fields name = some type := by
  induction fields using List.reverseRecOn with
  | nil => exact iff_of_false (fun ⟨_, hf, _⟩ => absurd hf List.not_mem_nil) (fun h => nomatch h)
  | append_singleton fields field ih =>
    rw [overlayAll_concat, mem_overlayField_iff (nodup_overlayAll fields), lastType_concat, ih]
    split
    · exact Option.some_inj.symm
    · exact Iff.rfl

variable {g : TypeGraph} {id : TypeId}

/-! ## Merged shapes -/

/-- The fields of a shape that is an object. -/
def fieldsOf? : TypeKind → Option (List Field)
  | .object fields => some fields
  | _ => none

/-- The fields of the nodes that are objects, aliases looked through. -/
def declaredFields (g : TypeGraph) (ids : List TypeId) : List (List Field) :=
  ids.filterMap fun id => fieldsOf? (aliasedKind g id g.size)

/-- The nodes that are neither objects nor unknown. -/
def otherNodes (g : TypeGraph) (ids : List TypeId) : List TypeId :=
  ids.filter fun id =>
    match aliasedKind g id g.size with
    | .object _ | .unknown => false
    | _ => true

theorem filterMap_others (g : TypeGraph) (ids : List TypeId) :
    ((ids.map fun id => (id, aliasedKind g id g.size)).filterMap fun (id, kind) =>
      match kind with
      | .object _ | .unknown => none
      | _ => some id) = otherNodes g ids := by
  induction ids with
  | nil => rfl
  | cons id ids ih =>
    rw [otherNodes] at ih ⊢
    rw [List.map_cons, List.filterMap_cons, List.filter_cons, ih]
    dsimp only
    cases aliasedKind g id g.size <;> rfl

theorem mergedKind_eq (g : TypeGraph) (ids : List TypeId) :
    mergedKind g ids =
      if (declaredFields g ids).isEmpty then
        match otherNodes g ids with
        | [single] => if (g.nameOf single).isSome then .union [single] else g.kind single
        | _ => .unknown
      else .object (overlayAll (declaredFields g ids).flatten) := by
  have hobjects :
      ((ids.map fun id => (id, aliasedKind g id g.size)).filterMap fun (_, kind) =>
        match kind with
        | .object fields => some fields
        | _ => none) = declaredFields g ids := by
    rw [declaredFields, List.filterMap_map]
    rfl
  rw [← hobjects, ← filterMap_others]
  rfl

/-- Nodes that are no objects do not stand for one. -/
theorem kind_ne_object_of_mem_otherNodes {ids : List TypeId} (hid : id < g.size)
    (h : id ∈ otherNodes g ids) (fields : List Field) : g.kind id ≠ .object fields := by
  intro hkind
  have hother := (List.mem_filter.1 h).2
  rw [aliasedKind_of_object hkind (Nat.zero_lt_of_lt hid)] at hother
  exact Bool.false_ne_true hother

/-- What is merged is an object just if something to merge is, and it has all the fields then. -/
theorem mergedKind_eq_object_iff {ids : List TypeId} (hids : ∀ id ∈ ids, id < g.size)
    (fields : List Field) :
    mergedKind g ids = .object fields ↔
      declaredFields g ids ≠ [] ∧ overlayAll (declaredFields g ids).flatten = fields := by
  rw [mergedKind_eq]
  split
  · rename_i hempty
    rw [List.isEmpty_iff] at hempty
    refine iff_of_false (fun hobject => ?_) fun h => h.1 hempty
    split at hobject
    · rename_i single hsingle
      have hmem : single ∈ otherNodes g ids := by
        rw [hsingle]
        exact List.mem_cons_self
      split at hobject
      · cases hobject
      · refine kind_ne_object_of_mem_otherNodes (hids single ?_) hmem fields hobject
        exact (List.mem_filter.1 hmem).1
    · cases hobject
  · rename_i hempty
    rw [List.isEmpty_iff] at hempty
    rw [TypeKind.object.injEq]
    exact (and_iff_right hempty).symm

theorem references_of_declaredFields (hg : g.Sound) {ids : List TypeId}
    (hids : ∀ id ∈ ids, id < g.size) :
    ∀ fields ∈ declaredFields g ids, ∀ field ∈ fields, field.type < g.size := by
  intro fields hfields field hfield
  obtain ⟨id, hid, hkind⟩ := List.mem_filterMap.1 hfields
  rcases aliasedKind_eq hg (hids id hid) g.size with hunknown | ⟨target, htarget, heq⟩
  · rw [hunknown] at hkind
    cases hkind
  · rw [heq] at hkind
    cases htype : g.kind target with
    | object others =>
      rw [htype] at hkind
      cases hkind
      refine hg.references target htarget _ ?_
      rw [htype]
      exact List.mem_map_of_mem hfield
    | _ =>
      rw [htype] at hkind
      cases hkind

/-- A merged shape may be added to the graph it was made from. -/
theorem addable_mergedKind (hg : g.Sound) (hoffers : ∀ id, (g.kind id).Offers) {ids : List TypeId}
    (hids : ∀ id ∈ ids, id < g.size) : Addable g (mergedKind g ids) := by
  rw [mergedKind_eq]
  split
  · split
    · rename_i single hsingle
      have hlt : single < g.size := by
        refine hids single (List.mem_of_mem_filter (p := fun id =>
          match aliasedKind g id g.size with
          | .object _ | .unknown => false
          | _ => true) ?_)
        rw [otherNodes] at hsingle
        rw [hsingle]
        exact List.mem_cons_self
      split
      · refine addable_union (List.cons_ne_nil _ _) fun member hmember => ?_
        rw [List.mem_singleton.1 hmember]
        exact hlt
      · exact ⟨hg.references single hlt, hoffers single⟩
    · exact addable_unknown g
  · refine ⟨fun child hchild => ?_, trivial⟩
    obtain ⟨field, hfield, rfl⟩ := List.mem_map.1 hchild
    obtain ⟨field', hfield', htype⟩ := type_of_mem_foldl hfield
    obtain ⟨fields, hfields, hmem⟩ := List.mem_flatten.1 hfield'
    rw [htype]
    exact references_of_declaredFields hg hids fields hfields field' hmem

end TypedClient.OpenApi
