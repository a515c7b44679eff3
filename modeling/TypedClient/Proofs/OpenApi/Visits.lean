import Mathlib.Logic.Function.Iterate
import TypedClient.Proofs.OpenApi.Keeping
import TypedClient.Proofs.OpenApi.Mapping

/-!
# Visits of named schemas

Mapping a named schema visits the named schemas that it refers to, and these visit others.  The node
of a schema is reserved before the schemas inside are visited, so no visit of a schema happens
inside another one of it, and visits are at most as many levels deep as there are schemas.

* `visitComponent` is one visit, given how the schemas that are referred to are visited;
* `Agree` says that two steps of building do the same while there is room for the visits that are
  left; `shapeOf_agree` is the case of a schema, by induction on it;
* `mapComponents_eq_visits` says that mapping the named schemas is visiting each of them, whatever a
  visit beyond that depth would do.
-/

set_option autoImplicit false

namespace TypedClient.OpenApi

open TypedClient.Types

/-- A visit of a named schema, where `visit` visits the named schemas it refers to. -/
def visitComponent (schemas : Dict Schema) (visit : String → Build TypeId) (name : String) :
    Build TypeId :=
  placedOr name <|
    match Dict.get? schemas name with
    | none => throw (.unresolvedReference name)
    | some schema => makeComponent name schema (shapeOf (followTo schemas visit) schema)

theorem component_succ (schemas : Dict Schema) (steps : Nat) :
    component schemas (steps + 1) = visitComponent schemas (component schemas steps) := rfl

/-! ## Steps that do the same -/

/-- Two steps do the same in every state in which at most `room` named schemas have not been met,
and no more are left after them. -/
def Agree {α : Type} (schemas : Dict Schema) (room : Nat) (m m' : Build α) : Prop :=
  ∀ b, unplaced schemas b ≤ room →
    m b = m' b ∧ Yields (m b) fun result => unplaced schemas result.2 ≤ room

variable {schemas : Dict Schema} {room : Nat} {α β : Type}

theorem agree_of_keeps {m : Build α}
    (h : Keeps (fun b => unplaced schemas b ≤ room) (fun _ => True) m) : Agree schemas room m m :=
  fun b hb => ⟨rfl, (h b hb).mono fun _ hresult => hresult.1⟩

theorem agree_pure (a : α) : Agree schemas room (pure a) (pure a) :=
  agree_of_keeps (keeps_pure trivial)

theorem agree_throw (e : GenerationError) : Agree schemas room (throw e : Build α) (throw e) :=
  agree_of_keeps (keeps_throw e)

/-- Steps that change nothing but the graph. -/
theorem agree_add (kind : TypeKind) : Agree schemas room (Build.add kind) (Build.add kind) :=
  fun _ hb => ⟨rfl, yields_ok hb⟩

theorem agree_change (f : TypeGraph → TypeGraph) :
    Agree schemas room (Build.change f) (Build.change f) :=
  fun _ hb => ⟨rfl, yields_ok hb⟩

theorem agree_graph : Agree schemas room Build.graph Build.graph := fun _ hb => ⟨rfl, yields_ok hb⟩

theorem Agree.bind {m m' : Build α} {f f' : α → Build β} (hm : Agree schemas room m m')
    (hf : ∀ a, Agree schemas room (f a) (f' a)) : Agree schemas room (m >>= f) (m' >>= f') := by
  intro b hb
  obtain ⟨heq, hyields⟩ := hm b hb
  change (m b >>= fun result => f result.1 result.2) =
    (m' b >>= fun result => f' result.1 result.2) ∧
    Yields (m b >>= fun result => f result.1 result.2) _
  rw [← heq]
  refine ⟨?_, hyields.bind fun result hresult => (hf result.1 result.2 hresult).2⟩
  cases hresult : m b with
  | ok result => exact (hf result.1 result.2 (hyields result hresult)).1
  | error e => rfl

theorem Agree.forM {xs : List α} {f f' : α → Build Unit}
    (h : ∀ x ∈ xs, Agree schemas room (f x) (f' x)) :
    Agree schemas room (xs.forM f) (xs.forM f') := by
  induction xs with
  | nil => exact agree_pure ()
  | cons x xs ih =>
    obtain ⟨hx, hxs⟩ := List.forall_mem_cons.1 h
    exact hx.bind fun _ => ih hxs

theorem Agree.mapM {xs : List α} {f f' : α → Build β}
    (h : ∀ x ∈ xs, Agree schemas room (f x) (f' x)) :
    Agree schemas room (xs.mapM f) (xs.mapM f') := by
  induction xs with
  | nil => exact agree_pure []
  | cons x xs ih =>
    rw [List.mapM_cons, List.mapM_cons]
    obtain ⟨hx, hxs⟩ := List.forall_mem_cons.1 h
    exact hx.bind fun _ => (ih hxs).bind fun _ => agree_pure _

/-! ## Schemas -/

variable {follow follow' : String → Build TypeId} {s : Schema}

theorem agree_admitNull (nullable : Bool) (id : TypeId) :
    Agree schemas room (admitNull nullable id) (admitNull nullable id) := by
  rw [admitNull]
  split
  · exact agree_pure id
  · refine agree_graph.bind fun g => ?_
    split
    · exact agree_pure id
    · exact (agree_add _).bind fun null => agree_add _

theorem placeNode_agree
    (hfollow : ∀ reference, Agree schemas room (follow reference) (follow' reference))
    (keywords : Keywords) {shape shape' : Build TypeKind}
    (hshape : Agree schemas room shape shape') :
    Agree schemas room (placeNode follow keywords shape) (placeNode follow' keywords shape') := by
  rw [placeNode, placeNode]
  split
  · exact (hfollow _).bind fun _ => agree_admitNull _ _
  · refine hshape.bind fun kind => (agree_add kind).bind fun id => ?_
    exact (agree_change _).bind fun _ => agree_admitNull _ _

/-- The node of the schema is made in the same way. -/
abbrev PlacesAlike (schemas : Dict Schema) (room : Nat) (follow follow' : String → Build TypeId)
    (s : Schema) : Prop :=
  Agree schemas room (placeSchema follow s) (placeSchema follow' s)

theorem placeAll_agree {ss : List Schema}
    (h : ∀ s ∈ ss, PlacesAlike schemas room follow follow' s) :
    Agree schemas room (placeAll follow ss) (placeAll follow' ss) := by
  induction ss with
  | nil =>
    rw [placeAll, placeAll]
    exact agree_pure []
  | cons s rest ih =>
    rw [placeAll, placeAll]
    obtain ⟨hs, hrest⟩ := List.forall_mem_cons.1 h
    exact hs.bind fun _ => (ih hrest).bind fun _ => agree_pure _

theorem placeProperties_agree {required : List String} {properties : List (String × Schema)}
    (h : ∀ entry ∈ properties, PlacesAlike schemas room follow follow' entry.2) :
    Agree schemas room (placeProperties follow required properties)
      (placeProperties follow' required properties) := by
  induction properties with
  | nil =>
    rw [placeProperties, placeProperties]
    exact agree_pure []
  | cons entry rest ih =>
    rw [placeProperties, placeProperties]
    obtain ⟨hentry, hrest⟩ := List.forall_mem_cons.1 h
    exact hentry.bind fun _ => (ih hrest).bind fun _ => agree_pure _

theorem placeItems_agree {items : Option Schema}
    (h : ∀ s, items = some s → PlacesAlike schemas room follow follow' s) :
    Agree schemas room (placeItems follow items) (placeItems follow' items) := by
  cases items with
  | none =>
    rw [placeItems, placeItems]
    exact agree_add _
  | some s =>
    rw [placeItems, placeItems]
    exact h s rfl

theorem placeAdditional_agree {additional : Option (Additional Schema)}
    (h : ∀ s, additional = some (.described s) → PlacesAlike schemas room follow follow' s) :
    Agree schemas room (placeAdditional follow additional)
      (placeAdditional follow' additional) := by
  rw [placeAdditional.eq_def, placeAdditional.eq_def]
  split
  · exact h _ rfl
  · exact agree_add _

theorem shapeOfNames_agree {array array' object object' : Build TypeKind}
    (harray : Agree schemas room array array') (hobject : Agree schemas room object object')
    (names : List String) :
    Agree schemas room (shapeOfNames array object names) (shapeOfNames array' object' names) := by
  have hnamed (name : String) :
      Agree schemas room (shapeNamed array object name) (shapeNamed array' object' name) := by
    rw [shapeNamed.eq_def, shapeNamed.eq_def]
    split
    all_goals first
      | exact harray
      | exact hobject
      | exact agree_pure _
  rw [shapeOfNames.eq_def, shapeOfNames.eq_def]
  split
  · exact agree_pure _
  · exact hnamed _
  · refine (Agree.mapM fun name _ => ?_).bind fun _ => agree_pure _
    exact (hnamed name).bind fun _ => agree_add _

/-- The schemas inside of a schema, those it merges left aside, are placed in the same way. -/
structure InsideAlike (schemas : Dict Schema) (room : Nat) (follow follow' : String → Build TypeId)
    (s : Schema) : Prop where
  /-- Properties. -/
  properties : ∀ entry ∈ s.properties, PlacesAlike schemas room follow follow' entry.2
  /-- Items. -/
  items : ∀ item, s.items = some item → PlacesAlike schemas room follow follow' item
  /-- Further members. -/
  additional : ∀ value, s.additional = some (.described value) →
    PlacesAlike schemas room follow follow' value
  /-- Alternatives. -/
  alternatives : ∀ choice ∈ s.alternatives, PlacesAlike schemas room follow follow' choice

theorem ownShape_agree (hinside : InsideAlike schemas room follow follow' s) :
    Agree schemas room (ownShape follow s) (ownShape follow' s) := by
  have hobject : Agree schemas room (objectShape follow s) (objectShape follow' s) := by
    rw [objectShape, objectShape]
    split
    · exact (placeAdditional_agree hinside.additional).bind fun _ => agree_pure _
    · exact (placeProperties_agree hinside.properties).bind fun _ => agree_pure _
  rw [ownShape, ownShape]
  split
  · exact (placeAll_agree hinside.alternatives).bind fun _ => agree_pure _
  · split
    · exact agree_pure _
    · split
      · exact agree_pure _
      · refine shapeOfNames_agree ?_ hobject _
        exact (placeItems_agree hinside.items).bind fun _ => agree_pure _

/-- The shape of a schema is made in the same way if references are followed in the same way, by
induction on the schemas inside. -/
theorem shapeOf_agree
    (hfollow : ∀ reference, Agree schemas room (follow reference) (follow' reference))
    (s : Schema) :
    Agree schemas room (shapeOf follow s) (shapeOf follow' s) := by
  induction Schema.all_of_forall (p := fun _ => True) (fun _ => trivial) s with
  | @intro s _ _ _ _ _ _ ihproperties ihitems ihadditional ihalternatives ihparts =>
    have hinside : InsideAlike schemas room follow follow' s := {
      properties := fun entry h => placeNode_agree hfollow _ (ihproperties entry h)
      items := fun item h => placeNode_agree hfollow _ (ihitems item h)
      additional := fun value h => placeNode_agree hfollow _ (ihadditional value h)
      alternatives := fun choice h => placeNode_agree hfollow _ (ihalternatives choice h) }
    cases href : s.keywords.reference with
    | some reference =>
      rw [shapeOf_reference href, shapeOf_reference href]
      exact (hfollow reference).bind fun _ => agree_pure _
    | none =>
      by_cases hparts : s.parts = []
      · rw [shapeOf_own href hparts, shapeOf_own href hparts]
        exact ownShape_agree hinside
      · have hinherited : Agree schemas room (placeAll follow s.parts) (placeAll follow' s.parts) :=
          placeAll_agree fun part h => placeNode_agree hfollow _ (ihparts part h)
        have halone : PlacesAlike schemas room follow follow' s.alone := by
          refine placeNode_agree hfollow _ ?_
          rw [shapeOf_own (s := s.alone) href rfl, shapeOf_own (s := s.alone) href rfl]
          exact ownShape_agree
            ⟨hinside.properties, hinside.items, hinside.additional, hinside.alternatives⟩
        rw [shapeOf_merging href hparts, shapeOf_merging href hparts]
        refine hinherited.bind fun inherited => ?_
        split
        · exact agree_graph.bind fun _ => agree_pure _
        · exact halone.bind fun _ => agree_graph.bind fun _ => agree_pure _

/-! ## Named schemas -/

theorem Agree.mono {m m' : Build α} {less : Nat} {b : Building} (h : Agree schemas less m m')
    (hle : less ≤ room) (hb : unplaced schemas b ≤ less) :
    m b = m' b ∧ Yields (m b) fun result => unplaced schemas result.2 ≤ room :=
  ⟨(h b hb).1, (h b hb).2.mono fun _ hresult => Nat.le_trans hresult hle⟩

theorem followTo_agree {visit visit' : String → Build TypeId}
    (hvisit : ∀ name, Dict.contains schemas name = true →
      Agree schemas room (visit name) (visit' name)) (reference : String) :
    Agree schemas room (followTo schemas visit reference) (followTo schemas visit' reference) := by
  rw [followTo, followTo]
  split
  · split
    · exact hvisit _ ‹_›
    · exact agree_throw _
  · exact agree_throw _

theorem bind_of_eq_ok {m : Build α} {f : α → Build β} {a : α} {b c : Building}
    (h : m b = .ok (a, c)) : (m >>= f) b = f a c := by
  change (m b >>= fun result => f result.1 result.2) = f a c
  rw [h]
  rfl

/-- While a schema waits for its shape there is one less that has not been met. -/
theorem makeComponent_agree {b : Building} {name : String} (hs : Dict.get? schemas name = some s)
    (hnew : Dict.get? b.placed name = none) (hb : unplaced schemas b ≤ room + 1)
    {shape shape' : Build TypeKind} (hshape : Agree schemas room shape shape') :
    makeComponent name s shape b = makeComponent name s shape' b ∧
      Yields (makeComponent name s shape b) fun result => unplaced schemas result.2 ≤ room + 1 := by
  have hnull (kind : TypeKind) : Agree schemas room (admitNullInside s.keywords.nullable kind)
      (admitNullInside s.keywords.nullable kind) := by
    rw [admitNullInside]
    split
    · exact (agree_add _).bind fun _ => (agree_add _).bind fun _ => agree_pure _
    · exact agree_pure _
  have hroom : unplaced schemas (withReserved b name) ≤ room :=
    Nat.le_of_lt_succ (Nat.lt_of_lt_of_le (unplaced_reserved hs hnew) hb)
  rw [makeComponent, makeComponent, bind_of_eq_ok (reserveComponent_eq b name),
    bind_of_eq_ok (reserveComponent_eq b name)]
  refine Agree.mono ?_ (Nat.le_succ room) hroom
  exact hshape.bind fun kind =>
    (hnull kind).bind fun _ => (agree_change _).bind fun _ => agree_pure _

theorem placedOr_of_some {b : Building} {name : String} {id : TypeId}
    (hid : Dict.get? b.placed name = some id) (make : Build TypeId) :
    placedOr name make b = .ok (id, b) := by
  have hget : (get : Build Building) b = .ok (b, b) := rfl
  rw [placedOr, bind_of_eq_ok hget, hid]
  rfl

theorem placedOr_of_none {b : Building} {name : String} (hnew : Dict.get? b.placed name = none)
    (make : Build TypeId) : placedOr name make b = make b := by
  have hget : (get : Build Building) b = .ok (b, b) := rfl
  rw [placedOr, bind_of_eq_ok hget, hnew]

theorem placedOr_agree {name : String} {make make' : Build TypeId}
    (hmake : ∀ b, Dict.get? b.placed name = none → unplaced schemas b ≤ room →
      make b = make' b ∧ Yields (make b) fun result => unplaced schemas result.2 ≤ room) :
    Agree schemas room (placedOr name make) (placedOr name make') := by
  intro b hb
  cases hplaced : Dict.get? b.placed name with
  | some id =>
    rw [placedOr_of_some hplaced, placedOr_of_some hplaced]
    exact ⟨rfl, yields_ok hb⟩
  | none =>
    rw [placedOr_of_none hplaced, placedOr_of_none hplaced]
    exact hmake b hplaced hb

/-- A visit has the same effect if the visits inside of it have. -/
theorem visitComponent_agree {visit visit' : String → Build TypeId}
    (hvisit : ∀ name, Dict.contains schemas name = true →
      Agree schemas room (visit name) (visit' name)) (name : String) :
    Agree schemas (room + 1) (visitComponent schemas visit name)
      (visitComponent schemas visit' name) := by
  refine placedOr_agree fun b hnew hb => ?_
  cases hs : Dict.get? schemas name with
  | none => exact agree_throw _ b hb
  | some s => exact makeComponent_agree hs hnew hb (shapeOf_agree (followTo_agree hvisit) s)

/-- When all named schemas have been met, visits lead no further. -/
theorem component_zero_agree (visit : String → Build TypeId) {name : String}
    (hname : Dict.contains schemas name = true) :
    Agree schemas 0 (component schemas 0 name) (visitComponent schemas visit name) := by
  refine placedOr_agree fun b hnew hb => ?_
  obtain ⟨s, hs⟩ := Option.isSome_iff_exists.1 hname
  exact absurd (Nat.lt_of_lt_of_le (unplaced_reserved hs hnew) hb) (Nat.not_lt_zero _)

/-- As many levels of visits as there are schemas to be met suffice, whatever comes beyond. -/
theorem component_agree (visit : String → Build TypeId) (steps : Nat) {name : String}
    (hname : Dict.contains schemas name = true) :
    Agree schemas steps (component schemas steps name)
      ((visitComponent schemas)^[steps + 1] visit name) := by
  induction steps generalizing name with
  | zero => exact component_zero_agree visit hname
  | succ steps ih =>
    rw [component_succ, Function.iterate_succ_apply']
    exact visitComponent_agree (fun _ h => ih h) name

/-- **Mapping the named schemas ends**, however they refer to one another: it visits each of them,
and visits are no more levels deep than there are schemas.  A visit beyond that depth never happens,
so that it does not matter what it would do. -/
theorem mapComponents_eq_visits (schemas : Dict Schema) (visit : String → Build TypeId)
    {levels : Nat} (hlevels : schemas.length < levels) :
    (Dict.keys schemas).forM (fun name => discard ((visitComponent schemas)^[levels] visit name))
      = mapComponents schemas := by
  obtain ⟨more, rfl⟩ : ∃ more, levels = schemas.length + 1 + more := Nat.exists_eq_add_of_le hlevels
  have hagree : Agree schemas schemas.length (mapComponents schemas)
      ((Dict.keys schemas).forM fun name =>
        discard ((visitComponent schemas)^[schemas.length + 1 + more] visit name)) := by
    rw [mapComponents, Function.iterate_add]
    refine Agree.forM fun name hname => ?_
    exact (component_agree _ schemas.length (Dict.contains_of_mem_keys hname)).bind fun _ =>
      agree_pure ()
  funext b
  exact (hagree b (List.length_filter_le _ _)).1.symm

end TypedClient.OpenApi
