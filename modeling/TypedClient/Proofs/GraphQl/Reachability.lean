import Mathlib.Data.List.Flatten
import Mathlib.Data.List.Nodup
import TypedClient.GraphQl.Normalize

/-!
# Types that can be reached

A type of a schema can be reached if a root type leads to it by references: those of fields, of
their arguments, of input fields, of members and of interfaces.

* `Introspection.Declares` and `Introspection.Admits` say which types a schema has under a name, and
  which of these definitions have nodes for;
* `Introspection.Reached` is reachability, along types of whatever sort one asks for;
* `mem_reachable_iff` says that `reachable` lists the types that can be reached along admitted ones,
  each once (`nodup_reachable`).

The list is made by a search with a queue.  `Visited` is what the search keeps, and `exists_visited`
that it ends with an empty queue: every step takes one name from the queue, and names are put there
once for each reference.
-/

set_option autoImplicit false

namespace TypedClient.GraphQl

/-! ## References -/

/-- The reference leads to the name, through wrappers that have none. -/
inductive TypeRef.Refers : TypeRef → String → Prop
  /-- The name of the reference. -/
  | plain {kind : Kind} {name : String} : Refers (.plain kind (some name)) name
  /-- The name inside of the wrapper. -/
  | wrapping {kind : Kind} {inner : TypeRef} {name : String} (h : inner.Refers name) :
      Refers (.wrapping kind none inner) name

/-- Lists and types without null are wrappers without name, and nothing else is one. -/
inductive TypeRef.WellFormed : TypeRef → Prop
  /-- A reference by name. -/
  | plain {kind : Kind} {name : String} (hlist : kind ≠ .list) (hnonNull : kind ≠ .nonNull) :
      WellFormed (.plain kind (some name))
  /-- A wrapper. -/
  | wrapping {kind : Kind} {inner : TypeRef} (hkind : kind = .list ∨ kind = .nonNull)
      (h : inner.WellFormed) : WellFormed (.wrapping kind none inner)

theorem TypeRef.WellFormed.refers_iff {r : TypeRef} (h : r.WellFormed) {name : String} :
    r.Refers name ↔ r.innermostName = some name := by
  induction h with
  | plain =>
    rw [innermostName, Option.some.injEq]
    constructor
    · rintro ⟨⟩
      rfl
    · rintro rfl
      exact .plain
  | wrapping _ _ ih =>
    rw [innermostName, ← ih]
    constructor
    · rintro ⟨⟩
      assumption
    · exact .wrapping

instance TypeRef.decidableWellFormed : (r : TypeRef) → Decidable r.WellFormed
  | .plain kind (some _) =>
    decidable_of_iff (kind ≠ .list ∧ kind ≠ .nonNull)
      ⟨fun h => .plain h.1 h.2, fun | .plain hlist hnonNull => ⟨hlist, hnonNull⟩⟩
  | .wrapping kind none inner =>
    have := decidableWellFormed inner
    decidable_of_iff ((kind = .list ∨ kind = .nonNull) ∧ inner.WellFormed)
      ⟨fun h => .wrapping h.1 h.2, fun | .wrapping hkind h => ⟨hkind, h⟩⟩
  | .plain _ none => isFalse nofun
  | .wrapping _ (some _) _ => isFalse nofun

/-- The type makes the reference. -/
inductive DeclaredType.Mentions (t : DeclaredType) : TypeRef → Prop
  /-- The type of a field. -/
  | field {f : FieldDef} (h : f ∈ t.fields) : Mentions t f.type
  /-- The type of an argument of a field. -/
  | argument {f : FieldDef} {a : InputValue} (hf : f ∈ t.fields) (ha : a ∈ f.arguments) :
      Mentions t a.type
  /-- The type of a field of an input object. -/
  | inputField {f : InputValue} (h : f ∈ t.inputFields) : Mentions t f.type
  /-- A member of a union or interface. -/
  | possibleType {r : TypeRef} (h : r ∈ t.possibleTypes) : Mentions t r
  /-- An interface of an object. -/
  | interface {r : TypeRef} (h : r ∈ t.interfaces) : Mentions t r

theorem DeclaredType.mem_references_iff {t : DeclaredType} {r : TypeRef} :
    r ∈ t.references ↔ t.Mentions r := by
  rw [references]
  constructor
  · intro h
    rcases List.mem_append.1 h with h | h
    · rcases List.mem_append.1 h with h | h
      · rcases List.mem_append.1 h with h | h
        · obtain ⟨f, hf, h⟩ := List.mem_flatMap.1 h
          rcases List.mem_cons.1 h with rfl | h
          · exact .field hf
          · obtain ⟨a, ha, rfl⟩ := List.mem_map.1 h
            exact .argument hf ha
        · obtain ⟨f, hf, rfl⟩ := List.mem_map.1 h
          exact .inputField hf
      · exact .possibleType h
    · exact .interface h
  · intro h
    simp only [List.mem_append, List.mem_flatMap, List.mem_cons, List.mem_map]
    cases h with
    | field h => exact .inl (.inl (.inl ⟨_, h, .inl rfl⟩))
    | argument hf ha => exact .inl (.inl (.inl ⟨_, hf, .inr ⟨_, ha, rfl⟩⟩))
    | inputField h => exact .inl (.inl (.inr ⟨_, h, rfl⟩))
    | possibleType h => exact .inl (.inr h)
    | interface h => exact .inr h

/-! ## Types of a schema -/

namespace Introspection

/-- The schema declares the type under the name. -/
structure Declares (schema : Introspection) (name : String) (t : DeclaredType) : Prop where
  /-- The type is declared. -/
  mem : t ∈ schema.types
  /-- It has the name. -/
  name_eq : t.name = some name

/-- Definitions have a node for the type: it is declared and no scalar, and its name is not one of
those that the language keeps for itself. -/
structure Admits (schema : Introspection) (name : String) (t : DeclaredType) : Prop extends
    Declares schema name t where
  /-- It is no scalar. -/
  kind : t.kind ≠ .scalar
  /-- The name does not start with two underscores. -/
  unreserved : "__".isPrefixOf name = false

/-- The name is that of the type of queries, mutations or subscriptions. -/
def Root (schema : Introspection) (name : String) : Prop :=
  schema.queryType = some name ∨ schema.mutationType = some name ∨
    schema.subscriptionType = some name

/-- The type can be reached from a root type along types of the given sort. -/
inductive Reached (schema : Introspection) (along : String → DeclaredType → Prop) :
    String → DeclaredType → Prop
  /-- It is a root type. -/
  | root {name : String} {t : DeclaredType} (h : schema.Root name) (ht : along name t) :
      Reached schema along name t
  /-- A type that can be reached refers to it. -/
  | reference {owner name : String} {u t : DeclaredType} {r : TypeRef}
      (h : Reached schema along owner u) (hr : u.Mentions r) (hname : r.Refers name)
      (ht : along name t) : Reached schema along name t

/-- Names are declared once, and references are in form. -/
structure WellFormed (schema : Introspection) : Prop where
  /-- No two types have the same name. -/
  distinct : (schema.types.filterMap DeclaredType.name).Nodup
  /-- Lists and types without null are wrappers, and nothing else is. -/
  references : ∀ t ∈ schema.types, ∀ r, t.Mentions r → r.WellFormed

variable {schema : Introspection} {name : String} {t : DeclaredType}

instance (schema : Introspection) : Decidable schema.WellFormed :=
  decidable_of_iff ((schema.types.filterMap DeclaredType.name).Nodup ∧
      ∀ t ∈ schema.types, ∀ r ∈ t.references, r.WellFormed)
    ⟨fun h => ⟨h.1, fun t ht r hr => h.2 t ht r (DeclaredType.mem_references_iff.2 hr)⟩,
      fun h =>
        ⟨h.distinct, fun t ht r hr => h.references t ht r (DeclaredType.mem_references_iff.1 hr)⟩⟩

theorem Reached.own {along : String → DeclaredType → Prop} (h : schema.Reached along name t) :
    along name t := by
  cases h <;> assumption

theorem find?_of_declares (hdistinct : (schema.types.filterMap DeclaredType.name).Nodup)
    (h : schema.Declares name t) : schema.find? name = some t := by
  obtain ⟨hmem, hname⟩ := h
  rw [find?]
  generalize schema.types = types at hdistinct hmem
  induction types with
  | nil => cases hmem
  | cons first rest ih =>
    by_cases hfirst : first.name = some name
    · rw [List.find?_cons_of_pos (by simp [hfirst])]
      rcases List.mem_cons.1 hmem with rfl | hmem
      · rfl
      · rw [List.filterMap_cons_some hfirst] at hdistinct
        exact absurd (List.mem_filterMap.2 ⟨t, hmem, hname⟩) (List.nodup_cons.1 hdistinct).1
    · rw [List.find?_cons_of_neg (by simp [hfirst])]
      have hne : t ≠ first := fun heq => hfirst (heq ▸ hname)
      refine ih (hdistinct.sublist ?_) ((List.mem_cons.1 hmem).resolve_left hne)
      exact (List.sublist_cons_self first rest).filterMap DeclaredType.name

theorem declares_of_find? (h : schema.find? name = some t) : schema.Declares name t := by
  refine ⟨List.mem_of_find?_eq_some h, ?_⟩
  simpa using List.find?_some h

/-- The schema has one type under a name. -/
theorem find?_eq_some_iff (h : schema.WellFormed) :
    schema.find? name = some t ↔ schema.Declares name t :=
  ⟨declares_of_find?, find?_of_declares h.distinct⟩

end Introspection

/-! ## The search -/

variable {schema : Introspection} {seen found queue : List String} {name : String}
  {t : DeclaredType}

/-- The types whose names have not been seen. -/
def unseen (schema : Introspection) (seen : List String) : List DeclaredType :=
  schema.types.filter fun t => t.name.any fun name => !seen.contains name

/-- The number of references that may still be put into the queue. -/
def waiting (schema : Introspection) (seen : List String) : Nat :=
  ((unseen schema seen).flatMap DeclaredType.references).length

theorem mem_unseen_iff : t ∈ unseen schema seen ↔
    t ∈ schema.types ∧ ∃ name, t.name = some name ∧ name ∉ seen := by
  simp [unseen, Option.any_eq_true]

theorem unseen_cons (schema : Introspection) (name : String) (seen : List String) :
    unseen schema (name :: seen) = (unseen schema seen).filter fun t => t.name != some name := by
  rw [unseen, unseen, List.filter_filter]
  refine List.filter_congr fun t _ => ?_
  cases t.name with
  | none => rfl
  | some other =>
    rw [Bool.eq_iff_iff]
    simp

theorem waiting_cons_le (schema : Introspection) (name : String) (seen : List String) :
    waiting schema (name :: seen) ≤ waiting schema seen := by
  rw [waiting, waiting, unseen_cons]
  exact (List.filter_sublist.flatMap _).length_le

/-- The references of a type that is seen for the first time wait no longer. -/
theorem length_references_add_waiting_le (ht : schema.Declares name t) (hname : name ∉ seen) :
    t.references.length + waiting schema (name :: seen) ≤ waiting schema seen := by
  have hmem : t ∈ unseen schema seen := mem_unseen_iff.2 ⟨ht.mem, name, ht.name_eq, hname⟩
  rw [waiting, waiting, unseen_cons]
  generalize unseen schema seen = types at hmem
  induction types with
  | nil => cases hmem
  | cons first rest ih =>
    rw [List.flatMap_cons, List.length_append]
    rcases List.mem_cons.1 hmem with rfl | hmem
    · rw [List.filter_cons_of_neg (by simp [ht.name_eq])]
      exact Nat.add_le_add_left (List.filter_sublist.flatMap _).length_le _
    · have hrest := ih hmem
      rw [List.filter_cons]
      split
      · rw [List.flatMap_cons, List.length_append]
        omega
      · omega

/-- What the search keeps, given the names that have been seen and found and those in the queue. -/
structure Visited (schema : Introspection) (seen found queue : List String) : Prop where
  /-- No name is found twice. -/
  nodup : found.Nodup
  /-- Names that are found have been seen. -/
  subset : found ⊆ seen
  /-- They can be reached. -/
  reached : ∀ name ∈ found, ∃ t, schema.Reached schema.Admits name t
  /-- Names in the queue can be reached if they are admitted. -/
  awaited : ∀ name ∈ queue, ∀ t, schema.Admits name t → schema.Reached schema.Admits name t
  /-- Names that have been seen are found if they are admitted. -/
  kept : ∀ name ∈ seen, ∀ t, schema.Admits name t → name ∈ found
  /-- The root types are found or wait in the queue. -/
  roots : ∀ name t, schema.Root name → schema.Admits name t → name ∈ found ∨ name ∈ queue
  /-- So are the types that those which are found refer to. -/
  closed : ∀ owner ∈ found, ∀ u, schema.Admits owner u → ∀ r, u.Mentions r → ∀ name, r.Refers name →
    ∀ t, schema.Admits name t → name ∈ found ∨ name ∈ queue

/-- What is found or waits behind a name which is found, if it is admitted at all, does so without
it. -/
theorem found_or_mem_of_cons {other : String} {u : DeclaredType}
    (hfound : ∀ t, schema.Admits name t → name ∈ found) (hu : schema.Admits other u)
    (h : other ∈ found ∨ other ∈ name :: queue) : other ∈ found ∨ other ∈ queue := by
  rcases h with h | h
  · exact .inl h
  · rcases List.mem_cons.1 h with rfl | h
    · exact .inl (hfound u hu)
    · exact .inr h

/-- A name is passed over that is not admitted or has been seen. -/
theorem Visited.pass (h : Visited schema seen found (name :: queue))
    (hseen : ∀ t, schema.Admits name t → name ∈ seen) {others : List String}
    (hothers : others = seen ∨ others = name :: seen) : Visited schema others found queue := by
  have hfound : ∀ t, schema.Admits name t → name ∈ found :=
    fun t ht => h.kept name (hseen t ht) t ht
  have hsubset : seen ⊆ others := by
    rcases hothers with rfl | rfl
    · exact List.Subset.refl _
    · exact List.subset_cons_self _ _
  refine ⟨h.nodup, List.Subset.trans h.subset hsubset, h.reached,
    fun other hother => h.awaited other (List.mem_cons_of_mem _ hother),
    fun other hother t ht => ?_,
    fun other t hroot ht => found_or_mem_of_cons hfound ht (h.roots other t hroot ht),
    fun owner howner u hu r hr other hother t ht =>
      found_or_mem_of_cons hfound ht (h.closed owner howner u hu r hr other hother t ht)⟩
  rcases hothers with rfl | rfl
  · exact h.kept other hother t ht
  · rcases List.mem_cons.1 hother with rfl | hother
    · exact hfound t ht
    · exact h.kept other hother t ht

/-- A type is found, and its references are put into the queue. -/
theorem Visited.enter (hschema : schema.WellFormed) (h : Visited schema seen found (name :: queue))
    (ht : schema.Admits name t) (hname : name ∉ seen) :
    Visited schema (name :: seen) (name :: found)
      (queue ++ t.references.filterMap TypeRef.innermostName) := by
  have hreached := h.awaited name List.mem_cons_self t ht
  have hmove {other : String} (hother : other ∈ found ∨ other ∈ name :: queue) :
      other ∈ name :: found ∨ other ∈ queue ++ t.references.filterMap TypeRef.innermostName := by
    rw [List.mem_cons] at hother ⊢
    rw [List.mem_append]
    tauto
  have hrefers {r : TypeRef} (hr : t.Mentions r) {other : String} :
      r.Refers other ↔ r.innermostName = some other := (hschema.references t ht.mem r hr).refers_iff
  refine ⟨List.nodup_cons.2 ⟨fun hmem => hname (h.subset hmem), h.nodup⟩,
    List.cons_subset_cons _ h.subset, List.forall_mem_cons.2 ⟨⟨t, hreached⟩, h.reached⟩,
    fun other hother u hu => ?_, fun other hother u hu => ?_, fun other u hroot hu =>
      hmove (h.roots other u hroot hu), fun owner howner u hu r hr other hother v hv => ?_⟩
  · rcases List.mem_append.1 hother with hother | hother
    · exact h.awaited other (List.mem_cons_of_mem _ hother) u hu
    · obtain ⟨r, hr, hother⟩ := List.mem_filterMap.1 hother
      have hr := DeclaredType.mem_references_iff.1 hr
      exact .reference hreached hr ((hrefers hr).2 hother) hu
  · rcases List.mem_cons.1 hother with rfl | hother
    · exact List.mem_cons_self
    · exact List.mem_cons_of_mem _ (h.kept other hother u hu)
  · rcases List.mem_cons.1 howner with rfl | howner
    · obtain rfl : t = u := Option.some.inj
        (((Introspection.find?_eq_some_iff hschema).2 ht.toDeclares).symm.trans
          ((Introspection.find?_eq_some_iff hschema).2 hu.toDeclares))
      refine .inr (List.mem_append_right _ (List.mem_filterMap.2 ⟨r, ?_, (hrefers hr).1 hother⟩))
      exact DeclaredType.mem_references_iff.2 hr
    · exact hmove (h.closed owner howner u hu r hr other hother v hv)

/-- **One step of the search** passes the first name of the queue over or finds it. -/
theorem visit_cons (hschema : schema.WellFormed) (seen found : List String) (steps : Nat)
    (name : String) (queue : List String) :
    (∃ others, (others = seen ∨ others = name :: seen) ∧ (∀ t, schema.Admits name t → name ∈ seen) ∧
      visit schema seen found (steps + 1) (name :: queue) = visit schema others found steps queue) ∨
    ∃ t, schema.Admits name t ∧ name ∉ seen ∧
      visit schema seen found (steps + 1) (name :: queue)
        = visit schema (name :: seen) (name :: found) steps
          (queue ++ t.references.filterMap TypeRef.innermostName) := by
  have hfind (t : DeclaredType) (ht : schema.Admits name t) : schema.find? name = some t :=
    (Introspection.find?_eq_some_iff hschema).2 ht.toDeclares
  rw [visit.eq_def]
  dsimp only
  split
  · rename_i hpassed
    refine .inl ⟨seen, .inl rfl, fun t ht => ?_, rfl⟩
    rw [ht.unreserved, Bool.false_or] at hpassed
    exact List.contains_iff_mem.1 hpassed
  · rename_i hnew
    rw [Bool.not_eq_true, Bool.or_eq_false_iff] at hnew
    split
    · rename_i hnone
      refine .inl ⟨_, .inr rfl, fun t ht => ?_, rfl⟩
      rw [hfind t ht] at hnone
      cases hnone
    · rename_i t hsome
      split
      · rename_i hscalar
        refine .inl ⟨_, .inr rfl, fun u hu => ?_, rfl⟩
        obtain rfl : t = u := Option.some.inj (hsome.symm.trans (hfind u hu))
        exact absurd hscalar hu.kind
      · rename_i hkind
        refine .inr ⟨t, ⟨Introspection.declares_of_find? hsome, hkind, hnew.1⟩, fun hmem => ?_, rfl⟩
        rw [List.contains_iff_mem.2 hmem] at hnew
        cases hnew.2

/-- **The search ends with an empty queue** if it may take as many steps as names wait or may still
be put into the queue. -/
theorem exists_visited (hschema : schema.WellFormed) (steps : Nat)
    (h : Visited schema seen found queue) (hsteps : queue.length + waiting schema seen ≤ steps) :
    ∃ others, Visited schema others (visit schema seen found steps queue) [] := by
  induction steps generalizing seen found queue with
  | zero =>
    obtain rfl : queue = [] := List.eq_nil_of_length_eq_zero (by omega)
    exact ⟨seen, h⟩
  | succ steps ih =>
    cases queue with
    | nil => exact ⟨seen, h⟩
    | cons name queue =>
      rw [List.length_cons] at hsteps
      rcases visit_cons hschema seen found steps name queue with
        ⟨others, hothers, hseen, hvisit⟩ | ⟨t, ht, hname, hvisit⟩
      · have hle : waiting schema others ≤ waiting schema seen := by
          rcases hothers with rfl | rfl
          · exact Nat.le_refl _
          · exact waiting_cons_le schema name seen
        rw [hvisit]
        exact ih (h.pass hseen hothers) (by omega)
      · have hle := length_references_add_waiting_le ht.toDeclares hname
        have hlength := List.length_filterMap_le TypeRef.innermostName t.references
        rw [hvisit]
        refine ih (h.enter hschema ht hname) ?_
        rw [List.length_append]
        omega

/-! ## The list -/

theorem exists_visited_reachable (hschema : schema.WellFormed) :
    ∃ seen, Visited schema seen (reachable schema).reverse [] := by
  rw [reachable, List.reverse_reverse]
  have hroot (name : String) : schema.Root name ↔
      name ∈ schema.queryType.toList ++ schema.mutationType.toList ++
        schema.subscriptionType.toList := by
    simp only [Introspection.Root, List.mem_append, Option.mem_toList, or_assoc]
  refine exists_visited hschema _ ⟨List.nodup_nil, List.nil_subset _, List.forall_mem_nil _,
    fun name hname t ht => .root ((hroot name).2 hname) ht, List.forall_mem_nil _,
    fun name t hname _ => .inr ((hroot name).1 hname), List.forall_mem_nil _⟩ ?_
  refine Nat.add_le_add_left ?_ _
  exact (List.filter_sublist.flatMap _).length_le

/-- **The types that are listed can be reached**, and all that can be reached are listed. -/
theorem mem_reachable_iff (hschema : schema.WellFormed) :
    name ∈ reachable schema ↔ ∃ t, schema.Reached schema.Admits name t := by
  obtain ⟨_, hvisited⟩ := exists_visited_reachable hschema
  rw [← List.mem_reverse]
  refine ⟨hvisited.reached name, ?_⟩
  rintro ⟨t, ht⟩
  induction ht with
  | @root name t hroot ht => exact (hvisited.roots name t hroot ht).resolve_right List.not_mem_nil
  | @reference owner name u t r howner hr hname ht ih =>
    exact (hvisited.closed owner ih u howner.own r hr name hname t ht).resolve_right
      List.not_mem_nil

/-- No name is found twice. -/
theorem nodup_visit {seen found : List String} (hnodup : found.Nodup) (hseen : found ⊆ seen)
    (steps : Nat) (queue : List String) : (visit schema seen found steps queue).Nodup := by
  fun_induction visit schema seen found steps queue with
  | case1 | case2 => exact hnodup
  | case3 _ _ _ _ _ _ ih => exact ih hnodup hseen
  | case4 _ _ _ _ _ _ _ _ ih | case5 _ _ _ _ _ _ _ _ _ _ ih =>
    exact ih hnodup (List.subset_cons_of_subset _ hseen)
  | case6 seen found steps name queue hnew _ type _ _ ih =>
    have hname : name ∉ found := fun hmem => hnew (by
      rw [List.contains_iff_mem.2 (hseen hmem), Bool.or_true])
    exact ih (List.nodup_cons.2 ⟨hname, hnodup⟩) (List.cons_subset_cons _ hseen)

theorem nodup_reachable (schema : Introspection) : (reachable schema).Nodup := by
  rw [reachable, List.nodup_reverse]
  exact nodup_visit List.nodup_nil (List.nil_subset _) _ _

end TypedClient.GraphQl
