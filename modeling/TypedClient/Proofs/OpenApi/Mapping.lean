import TypedClient.Proofs.OpenApi.Merging

/-!
# Mapping schemas

Mapping a schema in a consistent state leads to a consistent state with a node that stands for the
schema.

* `Goes` says this of a step of building, and `goes_bind` of one step after another;
* `shapeOf_goes` is the case of a schema, by induction on it, and `component_goes` that of a named
  schema, by induction on the steps that are left;
* `mapSchema_goes` and `mapComponents_goes` are the cases of the two functions that a document is
  mapped with.
-/

set_option autoImplicit false

namespace TypedClient.OpenApi

open TypedClient.Types

/-! ## Steps -/

/-- The surroundings that a step of building takes place in. -/
structure Stage where
  /-- The named schemas. -/
  schemas : Dict Schema
  /-- The names of the schemas that wait for their shape. -/
  pending : List String
  /-- How many more of them can be visited, one inside the other. -/
  steps : Nat
  /-- The errors that may end the step. -/
  fails : GenerationError → Prop

/-- How many named schemas have not been met. -/
def unplaced (schemas : Dict Schema) (b : Building) : Nat :=
  (schemas.filter fun entry => !Dict.contains b.placed entry.1).length

/-- The state is consistent, and there are steps enough for the schemas that have not been met. -/
structure Ready (t : Stage) (b : Building) : Prop where
  /-- The state is consistent. -/
  consistent : Consistent t.schemas t.pending b
  /-- There are steps enough. -/
  room : unplaced t.schemas b ≤ t.steps

/-- The step goes from the state to a consistent one, where the result is as told. -/
def Goes {α : Type} (t : Stage) (m : Build α) (b : Building) (Q : α → Building → Prop) : Prop :=
  Ends t.fails (fun a c => Advances t.schemas t.pending b c ∧ Q a c) (m b)

variable {t : Stage} {b c : Building} {α β : Type} {P Q : α → Building → Prop}

theorem contains_of_placed {schemas : Dict Schema} {pending : List String} {name : String}
    (hbc : Advances schemas pending b c) (h : Dict.contains b.placed name = true) :
    Dict.contains c.placed name = true := by
  obtain ⟨id, hid⟩ := Option.isSome_iff_exists.1 h
  exact Option.isSome_iff_exists.2 ⟨id, hbc.placed name id hid⟩

theorem unplaced_le {schemas : Dict Schema}
    (h : ∀ name, Dict.contains b.placed name = true → Dict.contains c.placed name = true) :
    unplaced schemas c ≤ unplaced schemas b := by
  refine (List.monotone_filter_right schemas fun entry hentry => ?_).length_le
  rw [Bool.not_eq_true', ← Bool.not_eq_true] at hentry ⊢
  exact fun hb => hentry (h entry.1 hb)

theorem Ready.advance (hb : Ready t b) (hbc : Advances t.schemas t.pending b c) : Ready t c :=
  ⟨hbc.consistent, Nat.le_trans (unplaced_le fun _ => contains_of_placed hbc) hb.room⟩

theorem goes_pure (hb : Ready t b) {a : α} (h : Q a b) : Goes t (pure a) b Q :=
  ends_pure ⟨.refl hb.consistent, h⟩

/-- One step after another. -/
theorem goes_bind {m : Build α} {f : α → Build β} {S : β → Building → Prop} (hb : Ready t b)
    (hm : Goes t m b P)
    (hf : ∀ a c, Ready t c → Advances t.schemas t.pending b c → P a c → Goes t (f a) c S) :
    Goes t (m >>= f) b S := by
  refine Ends.bind hm fun a c ⟨hbc, ha⟩ => ?_
  exact Ends.mono (hf a c (hb.advance hbc) hbc ha) fun x d ⟨hcd, hx⟩ => ⟨hbc.trans hcd, hx⟩

theorem Goes.mono {m : Build α} (hm : Goes t m b P)
    (hPQ : ∀ a c, Advances t.schemas t.pending b c → P a c → Q a c) : Goes t m b Q :=
  Ends.mono hm fun a c ⟨hbc, ha⟩ => ⟨hbc, hPQ a c hbc ha⟩

/-! ## Nodes -/

theorem add_goes (hb : Ready t b) {kind : TypeKind} (hkind : Addable b.graph kind) :
    Goes t (Build.add kind) b fun id c => c.placed = b.placed ∧ IsAnonymous c.graph id kind :=
  ⟨hb.consistent.add hkind, rfl, TypeGraph.isAnonymous_add b.graph kind⟩

/-- Adds a node and describes it, and goes on from there. -/
theorem add_described_goes (hb : Ready t b) {kind : TypeKind} (hkind : Addable b.graph kind)
    {text : Option String} {f : TypeId → Build α}
    (hf : ∀ id c, Ready t c → Advances t.schemas t.pending b c → c.placed = b.placed →
      IsAnonymous c.graph id kind → Goes t (f id) c Q) :
    Goes t (do let id ← Build.add kind; Build.change (·.setDescription id text); f id) b Q := by
  obtain ⟨hadvance, hid⟩ := hb.consistent.add_described hkind text
  exact Ends.mono (hf _ _ (hb.advance hadvance) hadvance rfl hid)
    fun x d ⟨hcd, hx⟩ => ⟨hadvance.trans hcd, hx⟩

theorem admitNull_goes (hb : Ready t b) {inner : TypeId} (hinner : inner < b.graph.size)
    (nullable : Bool) :
    Goes t (admitNull nullable inner) b fun id c =>
      c.placed = b.placed ∧ WithNull c.graph inner nullable id := by
  cases nullable with
  | false => exact goes_pure hb ⟨rfl, .plain⟩
  | true =>
    have hgraph : Goes t Build.graph b fun g c => g = b.graph ∧ c = b :=
      ⟨.refl hb.consistent, rfl, rfl⟩
    refine goes_bind hb hgraph fun g c hc _ hgc => ?_
    obtain ⟨rfl, rfl⟩ := hgc
    split
    · rename_i hnull
      exact goes_pure hc ⟨rfl, .null hnull⟩
    · refine goes_bind hc (add_goes hc (addable_primitive _ .null))
        fun null d hd hcd ⟨hplaced, hnull⟩ => ?_
      have hmembers : ∀ member ∈ [inner, null], member < d.graph.size := by
        intro member hmember
        rcases List.mem_cons.1 hmember with rfl | hmember
        · exact hcd.extended.lt hinner
        · rw [List.mem_singleton.1 hmember]
          exact hnull.lt
      refine (add_goes hd (addable_union (List.cons_ne_nil _ _) hmembers)).mono
        fun id e hde ⟨hplaced', hid⟩ => ⟨hplaced'.trans hplaced, ?_⟩
      exact .union (hde.later.graph.isAnonymous hnull) hid

theorem Represents.lt {s : Schema} {id : TypeId} (hid : Represents b s id) (hb : PlacedNodes b) :
    id < b.graph.size := by
  have hnull {inner : TypeId} {nullable : Bool} (hinner : inner < b.graph.size)
      (h : WithNull b.graph inner nullable id) : id < b.graph.size := by
    cases h with
    | plain => exact hinner
    | null => exact hinner
    | union _ hid => exact hid.lt
  cases hid.stands with
  | reference _ hinner hid => exact hnull (hb _ _ hinner.choose_spec.2) hid
  | shape _ hinner _ hid => exact hnull hinner.lt hid

/-! ## The node of a schema -/

/-- Following the reference leads to the node of the schema that it names. -/
def Followed (t : Stage) (follow : String → Build TypeId) (reference : String) : Prop :=
  ∀ b, Ready t b → Goes t (follow reference) b fun id c => LeadsTo c reference id

/-- The shape that is made is right for the schema and may be added to the graph. -/
def ShapeGoes (t : Stage) (s : Schema) (shape : Build TypeKind) : Prop :=
  ∀ b, Ready t b → Goes t shape b fun kind c =>
    Shaped (Represents c) c s kind ∧ Addable c.graph kind

/-- The node that is made stands for the schema. -/
def Places (t : Stage) (follow : String → Build TypeId) (s : Schema) : Prop :=
  ∀ b, Ready t b → Goes t (placeSchema follow s) b fun id c => Represents c s id

theorem placeNode_goes {follow : String → Build TypeId} {s : Schema} {shape : Build TypeKind}
    (hfollow : ∀ reference, s.keywords.reference = some reference → Followed t follow reference)
    (hshape : s.keywords.reference = none → ShapeGoes t s shape) (hb : Ready t b) :
    Goes t (placeNode follow s.keywords shape) b fun id c => Represents c s id := by
  rw [placeNode]
  cases href : s.keywords.reference with
  | some reference =>
    refine goes_bind hb (hfollow reference href b hb) fun inner c hc _ hinner => ?_
    have hlt := hc.consistent.placedNodes _ _ hinner.choose_spec.2
    refine (admitNull_goes hc hlt s.keywords.nullable).mono fun id d hcd ⟨_, hid⟩ => ?_
    exact Stands.represents (.reference href (hinner.later hcd.later) hid)
  | none =>
    refine goes_bind hb (hshape href b hb) fun kind c hc _ ⟨hkind, haddable⟩ => ?_
    refine add_described_goes hc haddable fun inner d hd hcd _ hinner => ?_
    refine (admitNull_goes hd hinner.lt s.keywords.nullable).mono fun id e hde ⟨_, hid⟩ => ?_
    refine Stands.represents (.shape href (hde.later.graph.isAnonymous hinner) ?_ hid)
    exact hkind.mono (fun s id h => h.later (hcd.later.trans hde.later) hc.consistent.placedNodes)
      (hcd.later.trans hde.later)

variable {follow : String → Build TypeId}

/-! ## The nodes of several schemas -/

/-- What is watched while schemas are mapped: a property of states that nodes without names do not
touch, and a relation between schemas and nodes that is there to stay. -/
structure Watched (t : Stage) (I : Building → Prop) (R : Building → Schema → TypeId → Prop) :
    Prop where
  /-- Nodes without names do not touch the property. -/
  keeps : ∀ {b c : Building}, Ready t b → Advances t.schemas t.pending b c → c.placed = b.placed →
    I b → I c
  /-- The relation stays. -/
  later : ∀ {b c : Building} {s : Schema} {id : TypeId}, Ready t b →
    Advances t.schemas t.pending b c → R b s id → R c s id
  /-- It is one of schemas and nodes. -/
  lt : ∀ {b : Building} {s : Schema} {id : TypeId}, Ready t b → R b s id → id < b.graph.size

/-- Nodes that stand for schemas go on standing for them. -/
theorem watched_represents (t : Stage) : Watched t (fun _ => True) Represents where
  keeps _ _ _ _ := trivial
  later hb hbc hid := hid.later hbc.later hb.consistent.placedNodes
  lt hb hid := hid.lt hb.consistent.placedNodes

variable {I : Building → Prop} {R : Building → Schema → TypeId → Prop}

/-- The property is kept, and the relation holds of the schema and the node that is made. -/
def PlacesAs (t : Stage) (I : Building → Prop) (R : Building → Schema → TypeId → Prop)
    (follow : String → Build TypeId) (s : Schema) : Prop :=
  ∀ b, Ready t b → I b → Goes t (placeSchema follow s) b fun id c => I c ∧ R c s id

theorem Places.placesAs {s : Schema} (h : Places t follow s) :
    PlacesAs t (fun _ => True) Represents follow s := fun b hb _ =>
  (h b hb).mono fun _ _ _ hid => ⟨trivial, hid⟩

/-- A node of which nothing is known. -/
theorem Watched.add_unknown_goes (hw : Watched t I R) (hb : Ready t b) (hI : I b) :
    Goes t (Build.add .unknown) b fun id c => I c ∧ IsAnonymous c.graph id .unknown :=
  (add_goes hb (addable_unknown _)).mono fun _ _ hbc ⟨hplaced, hid⟩ =>
    ⟨hw.keeps hb hbc hplaced hI, hid⟩

theorem placeAll_goes (hw : Watched t I R) {schemas : List Schema}
    (h : ∀ s ∈ schemas, PlacesAs t I R follow s) (b : Building) (hb : Ready t b) (hI : I b) :
    Goes t (placeAll follow schemas) b fun ids c => I c ∧ List.Forall₂ (R c) schemas ids := by
  induction schemas generalizing b with
  | nil => exact goes_pure hb ⟨hI, .nil⟩
  | cons s schemas ih =>
    rw [placeAll]
    refine goes_bind hb (h s List.mem_cons_self b hb hI) fun id c hc _ ⟨hI, hid⟩ => ?_
    refine goes_bind hc (ih (fun s hs => h s (List.mem_cons_of_mem _ hs)) c hc hI)
      fun ids d hd hcd ⟨hI, hids⟩ => ?_
    exact goes_pure hd ⟨hI, .cons (hw.later hc hcd hid) hids⟩

theorem placeProperties_goes (hw : Watched t I R) {required : List String}
    {properties : List (String × Schema)} (h : ∀ entry ∈ properties, PlacesAs t I R follow entry.2)
    (b : Building) (hb : Ready t b) (hI : I b) :
    Goes t (placeProperties follow required properties) b fun fields c => I c ∧
      ∃ ids, fields = fieldsFor required properties ids ∧
        List.Forall₂ (fun entry id => R c entry.2 id) properties ids := by
  induction properties generalizing b with
  | nil => exact goes_pure hb ⟨hI, [], rfl, .nil⟩
  | cons entry properties ih =>
    obtain ⟨name, s⟩ := entry
    rw [placeProperties]
    refine goes_bind hb (h (name, s) List.mem_cons_self b hb hI) fun id c hc _ ⟨hI, hid⟩ => ?_
    refine goes_bind hc (ih (fun entry hentry => h entry (List.mem_cons_of_mem _ hentry)) c hc hI)
      fun fields d hd hcd ⟨hI, ids, hfields, hids⟩ => ?_
    refine goes_pure hd ⟨hI, id :: ids, ?_, .cons (hw.later hc hcd hid) hids⟩
    rw [hfields]
    rfl

theorem placeItems_goes (hw : Watched t I R) {items : Option Schema}
    (h : ∀ s, items = some s → PlacesAs t I R follow s) (hb : Ready t b) (hI : I b) :
    Goes t (placeItems follow items) b fun id c =>
      I c ∧ OptionalPlaced (R c) c.graph items id := by
  cases items with
  | some s =>
    rw [placeItems]
    exact (h s rfl b hb hI).mono fun _ _ _ hid => ⟨hid.1, .some hid.2⟩
  | none =>
    rw [placeItems]
    exact (hw.add_unknown_goes hb hI).mono fun _ _ _ hid => ⟨hid.1, .none hid.2⟩

theorem placeAdditional_goes (hw : Watched t I R) {s : Schema}
    (h : ∀ value, s.additional = some (.described value) → PlacesAs t I R follow value)
    (hb : Ready t b) (hI : I b) :
    Goes t (placeAdditional follow s.additional) b fun id c =>
      I c ∧ OptionalPlaced (R c) c.graph s.valueSchema id := by
  have hunknown : Goes t (Build.add .unknown) b fun id c =>
      I c ∧ OptionalPlaced (R c) c.graph none id :=
    (hw.add_unknown_goes hb hI).mono fun _ _ _ hid => ⟨hid.1, .none hid.2⟩
  rw [Schema.valueSchema]
  cases hadditional : s.additional with
  | none =>
    rw [placeAdditional]
    · exact hunknown
    · exact fun _ h => nomatch h
  | some additional =>
    cases additional with
    | allowed flag =>
      rw [placeAdditional]
      · exact hunknown
      · exact fun _ h => nomatch h
    | described value =>
      rw [placeAdditional]
      exact (h value hadditional b hb hI).mono fun _ _ _ hid => ⟨hid.1, .some hid.2⟩

/-! ## The shape of a schema -/

/-- The shape of an object schema. -/
def objectShape (follow : String → Build TypeId) (s : Schema) : Build TypeKind :=
  if s.isRecord then do return .map (← placeAdditional follow s.additional)
  else do return .object (← placeProperties follow s.keywords.required s.properties)

/-- The shape of a schema that neither refers nor merges. -/
def ownShape (follow : String → Build TypeId) (s : Schema) : Build TypeKind := do
  if !s.alternatives.isEmpty then return .union (← placeAll follow s.alternatives)
  else
    match s.keywords.constant with
    | some value => return .enumeration [value]
    | none =>
      if !s.keywords.values.isEmpty then return .enumeration s.keywords.values
      else
        shapeOfNames (do return .array (← placeItems follow s.items)) (objectShape follow s)
          (typeNames s)

theorem objectShape_eq (follow : String → Build TypeId) (s : Schema) :
    objectShape follow s =
      match s.properties, s.additional with
      | [], some (.described _) => do return .map (← placeAdditional follow s.additional)
      | [], some (.allowed true) => do return .map (← placeAdditional follow s.additional)
      | _, _ => do return .object (← placeProperties follow s.keywords.required s.properties) := by
  rw [objectShape, Schema.isRecord]
  cases s.properties with
  | nil =>
    cases s.additional with
    | none => rfl
    | some additional =>
      cases additional with
      | described value => rfl
      | allowed flag => cases flag <;> rfl
  | cons entry rest => rfl

theorem shapeOf_own {follow : String → Build TypeId} {s : Schema}
    (href : s.keywords.reference = none) (hparts : s.parts = []) :
    shapeOf follow s = ownShape follow s := by
  obtain ⟨keywords, properties, items, additional, alternatives, parts⟩ := s
  dsimp only at href hparts
  rw [shapeOf.eq_def, ownShape, objectShape_eq]
  dsimp only
  rw [href, hparts]
  rfl

theorem shapeOf_merging {follow : String → Build TypeId} {s : Schema}
    (href : s.keywords.reference = none) (hparts : s.parts ≠ []) :
    shapeOf follow s = do
      let inherited ← placeAll follow s.parts
      if s.properties.isEmpty then return mergedKind (← Build.graph) inherited
      else
        let last ← placeSchema follow s.alone
        return mergedKind (← Build.graph) (inherited ++ [last]) := by
  have halone :
      placeSchema follow s.alone = placeNode follow s.alone.keywords (ownShape follow s) := by
    rw [placeSchema, shapeOf_own (s := s.alone) href rfl]
    rfl
  rw [halone, ownShape, objectShape_eq]
  obtain ⟨⟨reference, types, description, required, values, constant, nullable⟩, properties, items,
    additional, alternatives, parts⟩ := s
  dsimp only at href hparts
  subst href
  rw [shapeOf.eq_def]
  dsimp only
  rw [if_neg (by simpa using hparts)]
  rfl

theorem shapeOf_reference {follow : String → Build TypeId} {s : Schema} {reference : String}
    (href : s.keywords.reference = some reference) :
    shapeOf follow s = do return .union [← follow reference] := by
  obtain ⟨keywords, properties, items, additional, alternatives, parts⟩ := s
  dsimp only at href
  rw [shapeOf.eq_def]
  dsimp only
  rw [href]

/-! ## Mapping a schema -/

/-- The schemas inside a schema, merging left aside, are placed. -/
structure PlacesInside (t : Stage) (I : Building → Prop) (R : Building → Schema → TypeId → Prop)
    (follow : String → Build TypeId) (s : Schema) : Prop where
  /-- Properties. -/
  properties : ∀ entry ∈ s.properties, PlacesAs t I R follow entry.2
  /-- Items. -/
  items : ∀ item, s.items = some item → PlacesAs t I R follow item
  /-- Further members. -/
  additional : ∀ value, s.additional = some (.described value) → PlacesAs t I R follow value
  /-- Alternatives. -/
  alternatives : ∀ choice ∈ s.alternatives, PlacesAs t I R follow choice

theorem OptionalPlaced.lt (hw : Watched t I R) (hb : Ready t b) {s : Option Schema} {id : TypeId}
    (h : OptionalPlaced (R b) b.graph s id) : id < b.graph.size := by
  cases h with
  | some h => exact hw.lt hb h
  | none h => exact h.lt

theorem references_fieldsFor {required : List String} {properties : List (String × Schema)}
    {ids : List TypeId} :
    ∀ child ∈ (TypeKind.object (fieldsFor required properties ids)).references, child ∈ ids := by
  rw [TypeKind.references, fieldsFor]
  induction properties generalizing ids with
  | nil => exact fun child h => absurd h List.not_mem_nil
  | cons entry properties ih =>
    cases ids with
    | nil => exact fun child h => absurd h List.not_mem_nil
    | cons id ids =>
      rw [List.zipWith_cons_cons, List.map_cons]
      exact List.forall_mem_cons.2
        ⟨List.mem_cons_self, fun child h => List.mem_cons_of_mem _ (ih child h)⟩

theorem objectShape_goes (hw : Watched t I R) {s : Schema} (h : PlacesInside t I R follow s)
    (hb : Ready t b) (hI : I b) :
    Goes t (objectShape follow s) b fun kind c =>
      I c ∧ NameShaped (R c) c.graph s "object" kind ∧ Addable c.graph kind := by
  rw [objectShape]
  split
  · rename_i hrecord
    refine goes_bind hb (placeAdditional_goes hw h.additional hb hI)
      fun value c hc _ ⟨hI, hvalue⟩ => ?_
    refine goes_pure hc ⟨hI, .record hrecord hvalue, fun child hchild => ?_, trivial⟩
    rw [List.mem_singleton.1 hchild]
    exact hvalue.lt hw hc
  · rename_i hrecord
    refine goes_bind hb (placeProperties_goes hw h.properties b hb hI)
      fun fields c hc _ ⟨hI, ids, hfields, hids⟩ => ?_
    subst hfields
    refine goes_pure hc ⟨hI, .object (by simpa using hrecord) hids, fun child hchild => ?_, trivial⟩
    have hmem := references_fieldsFor child hchild
    obtain ⟨entry, -, hentry⟩ := exists_of_mem_right hids hmem
    exact hw.lt hc hentry

theorem shapeNamed_goes (hw : Watched t I R) {s : Schema} (h : PlacesInside t I R follow s)
    (name : String) (hb : Ready t b) (hI : I b) :
    Goes t
      (shapeNamed (do return .array (← placeItems follow s.items)) (objectShape follow s) name) b
      fun kind c => I c ∧ NameShaped (R c) c.graph s name kind ∧ Addable c.graph kind := by
  by_cases harray : name = "array"
  · subst harray
    refine goes_bind hb (placeItems_goes hw h.items hb hI) fun item c hc _ ⟨hI, hitem⟩ => ?_
    refine goes_pure hc ⟨hI, .array hitem, fun child hchild => ?_, trivial⟩
    rw [List.mem_singleton.1 hchild]
    exact hitem.lt hw hc
  · by_cases hobject : name = "object"
    · subst hobject
      exact objectShape_goes hw h hb hI
    · have hscalar : ∀ array object : Build TypeKind,
          shapeNamed array object name = pure (scalarShape name) := by
        intro array object
        rw [shapeNamed.eq_def, scalarShape.eq_def]
        split <;> simp_all
      have haddable : Addable b.graph (scalarShape name) := by
        rw [scalarShape.eq_def]
        split
        all_goals first
          | exact addable_primitive _ _
          | exact addable_unknown _
      rw [hscalar]
      exact goes_pure hb ⟨hI, .scalar harray hobject, haddable⟩

theorem addable_union_of_forall₂ {R : α → TypeId → Prop} {as : List α} {ids : List TypeId}
    (h : List.Forall₂ R as ids) (hne : as ≠ []) (hlt : ∀ a ∈ as, ∀ id, R a id → id < b.graph.size) :
    Addable b.graph (.union ids) := by
  refine addable_union (fun hnil => hne ?_) (forall₂_right h hlt)
  subst hnil
  exact List.forall₂_nil_right_iff.1 h

theorem shapeOfNames_goes (hw : Watched t I R) {s : Schema} (h : PlacesInside t I R follow s)
    (names : List String) (hb : Ready t b) (hI : I b) :
    Goes t
      (shapeOfNames (do return .array (← placeItems follow s.items)) (objectShape follow s) names) b
      fun kind c => I c ∧ NamesShaped (R c) c.graph s names kind ∧ Addable c.graph kind := by
  have hmembers : ∀ (names : List String) (b : Building), Ready t b → I b →
      Goes t
        (names.mapM fun name => do
          Build.add (← shapeNamed (do return .array (← placeItems follow s.items))
            (objectShape follow s) name)) b
        fun ids c => I c ∧ List.Forall₂ (fun name id => ∃ kind, IsAnonymous c.graph id kind ∧
          NameShaped (R c) c.graph s name kind) names ids := by
    intro names
    induction names with
    | nil => exact fun b hb hI => goes_pure hb ⟨hI, .nil⟩
    | cons name names ih =>
      intro b hb hI
      rw [List.mapM_cons]
      have hfirst : Goes t (do
          Build.add (← shapeNamed (do return .array (← placeItems follow s.items))
            (objectShape follow s) name)) b fun id c => I c ∧ ∃ kind, IsAnonymous c.graph id kind ∧
          NameShaped (R c) c.graph s name kind := by
        refine goes_bind hb (shapeNamed_goes hw h name hb hI)
          fun kind c hc _ ⟨hI, hkind, haddable⟩ => ?_
        refine (add_goes hc haddable).mono fun id d hcd ⟨hplaced, hid⟩ =>
          ⟨hw.keeps hc hcd hplaced hI, kind, hid, ?_⟩
        exact hkind.mono (fun s id h => hw.later hc hcd h) hcd.later.graph
      refine goes_bind hb hfirst fun id c hc _ ⟨hI, kind, hid, hkind⟩ => ?_
      refine goes_bind hc (ih c hc hI) fun ids d hd hcd ⟨hI, hids⟩ => ?_
      refine goes_pure hd ⟨hI, .cons ⟨kind, hcd.later.graph.isAnonymous hid, ?_⟩ hids⟩
      exact hkind.mono (fun s id h => hw.later hc hcd h) hcd.later.graph
  match names with
  | [] => exact goes_pure hb ⟨hI, .unknown, addable_unknown _⟩
  | [name] =>
    exact (shapeNamed_goes hw h name hb hI).mono fun kind c _ ⟨hI, hkind, hadd⟩ =>
      ⟨hI, .single hkind, hadd⟩
  | first :: second :: rest =>
    refine goes_bind hb (hmembers (first :: second :: rest) b hb hI) fun ids c hc _ ⟨hI, hids⟩ => ?_
    refine goes_pure hc ⟨hI, .several ?_ hids, ?_⟩
    · rw [List.length_cons, List.length_cons]
      exact Nat.le_add_left 2 rest.length
    · refine addable_union_of_forall₂ hids (List.cons_ne_nil _ _) fun name _ id hid => ?_
      obtain ⟨kind, hid, -⟩ := hid
      exact hid.lt

theorem ownShape_goes (hw : Watched t I R) {s : Schema} (h : PlacesInside t I R follow s)
    (hb : Ready t b) (hI : I b) :
    Goes t (ownShape follow s) b fun kind c =>
      I c ∧ OwnShaped (R c) c.graph s kind ∧ Addable c.graph kind := by
  rw [ownShape]
  have hnothing {kind : TypeKind} (hkind : kind.references = []) :
      ∀ child ∈ kind.references, child < b.graph.size := by
    rw [hkind]
    exact fun child h => absurd h List.not_mem_nil
  split
  · rename_i halternatives
    have hne : s.alternatives ≠ [] := by simpa using halternatives
    refine goes_bind hb (placeAll_goes hw h.alternatives b hb hI) fun ids c hc _ ⟨hI, hids⟩ => ?_
    refine goes_pure hc ⟨hI, .alternatives hne hids, ?_⟩
    exact addable_union_of_forall₂ hids hne fun _ _ _ hid => hw.lt hc hid
  · rename_i halternatives
    have hnil : s.alternatives = [] := by simpa using halternatives
    split
    · rename_i value hconstant
      exact goes_pure hb ⟨hI, .constant hnil hconstant, hnothing rfl, List.cons_ne_nil _ _⟩
    · rename_i hconstant
      split
      · rename_i hvalues
        have hne : s.keywords.values ≠ [] := by simpa using hvalues
        exact goes_pure hb ⟨hI, .values hnil hconstant hne, hnothing rfl, hne⟩
      · rename_i hvalues
        refine (shapeOfNames_goes hw h (typeNames s) hb hI).mono fun kind c _ ⟨hI, hkind, hadd⟩ =>
          ⟨hI, ?_, hadd⟩
        exact .names hnil hconstant (by simpa using hvalues) hkind

/-- The nodes that are merged stand for the schemas that are merged, in the graph in which they are
merged. -/
theorem merging_goes (hw : Watched t I R) {s : Schema}
    (hparts : ∀ part ∈ s.parts, PlacesAs t I R follow part) (halone : PlacesAs t I R follow s.alone)
    (href : s.keywords.reference = none) (hne : s.parts ≠ []) (hb : Ready t b) (hI : I b) :
    Goes t (shapeOf follow s) b fun kind c => I c ∧ ∃ ids, kind = mergedKind c.graph ids ∧
      List.Forall₂ (R c) s.merged ids := by
  have hgraph {c : Building} (hc : Ready t c) :
      Goes t Build.graph c fun g d => g = c.graph ∧ d = c := ⟨.refl hc.consistent, rfl, rfl⟩
  rw [shapeOf_merging href hne]
  refine goes_bind hb (placeAll_goes hw hparts b hb hI) fun inherited c hc _ ⟨hI, hinherited⟩ => ?_
  rw [Schema.merged]
  split
  · refine goes_bind hc (hgraph hc) fun g d hd _ hgd => ?_
    obtain ⟨rfl, rfl⟩ := hgd
    exact goes_pure hd ⟨hI, inherited, rfl, by rwa [List.append_nil]⟩
  · refine goes_bind hc (halone c hc hI) fun last d hd hcd ⟨hI, hlast⟩ => ?_
    refine goes_bind hd (hgraph hd) fun g e he _ hge => ?_
    obtain ⟨rfl, rfl⟩ := hge
    refine goes_pure he ⟨hI, inherited ++ [last], rfl, List.rel_append ?_ (.cons hlast .nil)⟩
    exact hinherited.imp fun _ _ h => hw.later hc hcd h

/-- Every reference of the schema itself can be followed. -/
def HeadFollowed (t : Stage) (follow : String → Build TypeId) (s : Schema) : Prop :=
  ∀ reference, s.keywords.reference = some reference → Followed t follow reference

theorem places_of_shapeGoes {s : Schema} (hhead : HeadFollowed t follow s)
    (hshape : ShapeGoes t s (shapeOf follow s)) : Places t follow s := fun _ hb =>
  placeNode_goes hhead (fun _ => hshape) hb

theorem Schema.All.here {p : Schema → Prop} {s : Schema} (h : s.All p) : p s := by
  cases h with
  | intro here => exact here

/-- The shape of a schema whose references can be followed, by induction on the schema. -/
theorem shapeOf_goes {s : Schema} (h : s.All (HeadFollowed t follow)) :
    ShapeGoes t s (shapeOf follow s) := by
  induction h with
  | @intro s here hproperties hitems hadditional halternatives hparts ihproperties ihitems
      ihadditional ihalternatives ihparts =>
    intro b hb
    have hw := watched_represents t
    have hplaces {u : Schema} (hu : u.All (HeadFollowed t follow))
        (hshape : ShapeGoes t u (shapeOf follow u)) : PlacesAs t
        (fun _ => True) Represents follow u :=
      (places_of_shapeGoes hu.here hshape).placesAs
    have hinside : PlacesInside t (fun _ => True) Represents follow s := {
      properties := fun entry h => hplaces (hproperties entry h) (ihproperties entry h)
      items := fun item h => hplaces (hitems item h) (ihitems item h)
      additional := fun value h => hplaces (hadditional value h) (ihadditional value h)
      alternatives := fun choice h => hplaces (halternatives choice h) (ihalternatives choice h) }
    cases href : s.keywords.reference with
    | some reference =>
      rw [shapeOf_reference href]
      refine goes_bind hb (here reference href b hb) fun target c hc _ htarget => ?_
      refine goes_pure hc ⟨.reference href htarget, addable_union (List.cons_ne_nil _ _) ?_⟩
      intro member hmember
      rw [List.mem_singleton.1 hmember]
      exact hc.consistent.placedNodes _ _ htarget.choose_spec.2
    | none =>
      by_cases hne : s.parts = []
      · rw [shapeOf_own href hne]
        exact (ownShape_goes hw hinside hb trivial).mono fun kind c _ ⟨_, hkind, hadd⟩ =>
          ⟨.own href hne hkind, hadd⟩
      · have halone : Places t follow s.alone := by
          have hhead : HeadFollowed t follow s.alone := here
          refine places_of_shapeGoes hhead fun c hc => ?_
          have hinside' : PlacesInside t (fun _ => True) Represents follow s.alone :=
            ⟨hinside.properties, hinside.items, hinside.additional, hinside.alternatives⟩
          rw [shapeOf_own (s := s.alone) href rfl]
          exact (ownShape_goes hw hinside' hc trivial).mono fun kind d _ ⟨_, hkind, hadd⟩ =>
            ⟨.own href rfl hkind, hadd⟩
        refine (merging_goes hw (fun part h => hplaces (hparts part h) (ihparts part h))
          halone.placesAs href hne hb trivial).mono fun kind c hbc ⟨_, ids, hkind, hids⟩ => ?_
        subst hkind
        have hc := hbc.consistent
        have hlt := forall₂_right hids fun _ _ _ hid => hid.lt hc.placedNodes
        exact ⟨.merged href hne hc.grown.toSound (.refl _) hlt hids,
          addable_mergedKind hc.grown.toSound hc.offers hlt⟩

theorem placeSchema_goes {s : Schema} (h : s.All (HeadFollowed t follow)) : Places t follow s :=
  places_of_shapeGoes h.here (shapeOf_goes h)

/-! ## Named schemas -/

/-- The reference names a schema, or the step may end with the error for it. -/
def Resolved (schemas : Dict Schema) (fails : GenerationError → Prop) (reference : String) : Prop :=
  (∃ name, referredName? .schemas reference = some name ∧ Dict.contains schemas name = true) ∨
    fails (.unresolvedReference reference)

/-- Every reference of the schema itself is resolved. -/
def HeadResolved (schemas : Dict Schema) (fails : GenerationError → Prop) (s : Schema) : Prop :=
  ∀ reference, s.keywords.reference = some reference → Resolved schemas fails reference

/-- All references in the named schemas are resolved. -/
def AllResolved (schemas : Dict Schema) (fails : GenerationError → Prop) : Prop :=
  ∀ name s, Dict.get? schemas name = some s → s.All (HeadResolved schemas fails)

theorem Schema.All.mono {p q : Schema → Prop} {s : Schema} (h : s.All p) (hpq : ∀ s, p s → q s) :
    s.All q := by
  induction h with
  | intro here _ _ _ _ _ ihproperties ihitems ihadditional ihalternatives ihparts =>
    exact .intro (hpq _ here) ihproperties ihitems ihadditional ihalternatives ihparts

/-- Meeting a schema for the first time leaves one less to be met. -/
theorem unplaced_reserved {schemas : Dict Schema} {name : String} {s : Schema}
    (hs : Dict.get? schemas name = some s) (hnew : Dict.get? b.placed name = none) :
    unplaced schemas (withReserved b name) < unplaced schemas b := by
  have hmem : (name, s) ∈ schemas.filter fun entry => !Dict.contains b.placed entry.1 := by
    refine List.mem_filter.2 ⟨Dict.mem_of_get? hs, ?_⟩
    rw [Dict.contains, hnew]
    rfl
  have hplaced : Dict.contains (withReserved b name).placed name = true := by
    rw [Dict.contains, get?_reserved_self]
    rfl
  have hfilter : unplaced schemas (withReserved b name)
      = ((schemas.filter fun entry => !Dict.contains b.placed entry.1).filter fun entry =>
          !Dict.contains (withReserved b name).placed entry.1).length := by
    rw [unplaced, List.filter_filter]
    congr 1
    refine List.filter_congr fun entry _ => ?_
    cases hcontains : Dict.contains b.placed entry.1 with
    | false => rw [Bool.not_false, Bool.and_true]
    | true =>
      obtain ⟨id, hid⟩ := Option.isSome_iff_exists.1 hcontains
      rw [Dict.contains, (later_reserved hnew).placed entry.1 id hid]
      rfl
  rw [hfilter, unplaced]
  exact List.length_filter_lt_length_iff_exists.2 ⟨(name, s), hmem, by simp [hplaced]⟩

/-- Following a reference that is resolved visits the schema that it names. -/
theorem followTo_goes {visit : String → Build TypeId} {reference : String}
    {Q : TypeId → Building → Prop}
    (hvisit : ∀ name, referredName? .schemas reference = some name →
      Dict.contains t.schemas name = true → Goes t (visit name) b Q)
    (h : Resolved t.schemas t.fails reference) :
    Goes t (followTo t.schemas visit reference) b Q := by
  rw [followTo]
  rcases h with ⟨name, hname, hcontains⟩ | hfails
  · rw [hname]
    dsimp only
    rw [if_pos hcontains]
    exact hvisit name hname hcontains
  · split
    · rename_i name hname
      split
      · rename_i hcontains
        exact hvisit name hname hcontains
      · exact hfails
    · exact hfails

theorem followed_followTo {visit : String → Build TypeId} {reference : String}
    (hvisit : ∀ name, Dict.contains t.schemas name = true → ∀ b, Ready t b →
      Goes t (visit name) b fun id c => Dict.get? c.placed name = some id)
    (h : Resolved t.schemas t.fails reference) :
    Followed t (followTo t.schemas visit) reference := fun b hb =>
  followTo_goes (fun name hname hcontains =>
    (hvisit name hcontains b hb).mono fun _ _ _ hid => ⟨name, hname, hid⟩) h

theorem placedOr_goes {name : String} {make : Build TypeId} {Q : TypeId → Building → Prop}
    (hb : Ready t b) (hplaced : ∀ id, Dict.get? b.placed name = some id → Q id b)
    (hmake : Dict.get? b.placed name = none → Goes t make b Q) :
    Goes t (placedOr name make) b Q := by
  rw [placedOr]
  have hget : Goes t get b fun state c => state = b ∧ c = b := ⟨.refl hb.consistent, rfl, rfl⟩
  refine goes_bind hb hget fun state c hc _ hstate => ?_
  obtain ⟨rfl, rfl⟩ := hstate
  cases hid : Dict.get? c.placed name with
  | some id => exact goes_pure hc (hplaced id hid)
  | none => exact hmake hid

/-- The shape itself or, if null is asked for, a union of a node of the shape with null. -/
inductive WithNullInside (g : TypeGraph) (kind : TypeKind) : (nullable : Bool) → TypeKind → Prop
  /-- Nothing is asked for. -/
  | plain : WithNullInside g kind false kind
  /-- A union with null. -/
  | union {inner null : TypeId} (hinner : IsAnonymous g inner kind)
      (hnull : IsAnonymous g null (.primitive .null)) :
      WithNullInside g kind true (.union [inner, null])

theorem WithNullInside.fills {s : Schema} {kind filled : TypeKind}
    (h : WithNullInside b.graph kind s.keywords.nullable filled)
    (hkind : Shaped (Represents b) b s kind) : Fills b s filled := by
  generalize hnullable : s.keywords.nullable = nullable at h
  cases h with
  | plain => exact .plain hnullable hkind
  | union hinner hnull => exact .nullable hnullable hkind hinner hnull

/-- Null becomes part of the shape of a named schema. -/
theorem admitNullInside_goes {kind : TypeKind} (hb : Ready t b) (hadd : Addable b.graph kind)
    (nullable : Bool) :
    Goes t (admitNullInside nullable kind) b fun filled c =>
      c.placed = b.placed ∧ WithNullInside c.graph kind nullable filled ∧
        Addable c.graph filled := by
  rw [admitNullInside]
  cases nullable with
  | true =>
    refine goes_bind hb (add_goes hb hadd) fun inner c hc hbc ⟨hplaced, hinner⟩ => ?_
    refine goes_bind hc (add_goes hc (addable_primitive _ .null))
      fun null d hd hcd ⟨hplaced', hnull⟩ => ?_
    have hinner' := hcd.later.graph.isAnonymous hinner
    refine goes_pure hd ⟨hplaced'.trans hplaced, .union hinner' hnull, ?_⟩
    refine addable_union (List.cons_ne_nil _ _) fun member hmember => ?_
    rcases List.mem_cons.1 hmember with rfl | hmember
    · exact hinner'.lt
    · rw [List.mem_singleton.1 hmember]
      exact hnull.lt
  | false => exact goes_pure hb ⟨rfl, .plain, hadd⟩

/-- What is watched while a named schema waits for its shape: a property `J` of states, one `K` of
shapes, and what these become when the schema has got its shape. -/
structure WatchedFill (schemas : Dict Schema) (pending : List String) (name : String) (s : Schema)
    (J : Building → Prop) (K : Building → TypeKind → Prop) (I : Building → Prop) : Prop where
  /-- Nodes without names do not touch the properties. -/
  keeps : ∀ {c d : Building} {kind : TypeKind}, Consistent schemas (name :: pending) c →
    Advances schemas (name :: pending) c d → d.placed = c.placed → J c → K c kind → J d ∧ K d kind
  /-- The node gets its shape. -/
  fill : ∀ {d : Building} {id : TypeId} {kind filled : TypeKind},
    Consistent schemas (name :: pending) d → Dict.get? d.placed name = some id → J d → K d kind →
      WithNullInside d.graph kind s.keywords.nullable filled →
        I (withShape d id filled s.keywords.description)

/-- Nothing need be watched. -/
theorem watchedFill_trivial (schemas : Dict Schema) (pending : List String) (name : String)
    (s : Schema) :
    WatchedFill schemas pending name s (fun _ => True) (fun _ _ => True) fun _ => True :=
  ⟨fun _ _ _ _ _ => ⟨trivial, trivial⟩, fun _ _ _ _ _ => trivial⟩

/-- Making the node of a named schema: its shape is made while it waits. -/
theorem makeComponent_goes {schemas : Dict Schema} {pending : List String} {steps : Nat}
    {fails : GenerationError → Prop} {name : String} {s : Schema} {shape : Build TypeKind}
    {J : Building → Prop} {K : Building → TypeKind → Prop} {I : Building → Prop}
    (hwatched : WatchedFill schemas pending name s J K I) (hs : Dict.get? schemas name = some s)
    (hnew : Dict.get? b.placed name = none) (hJ : J (withReserved b name))
    (hshape : ∀ c, Ready ⟨schemas, name :: pending, steps, fails⟩ c → J c →
      Goes ⟨schemas, name :: pending, steps, fails⟩ shape c fun kind d =>
        J d ∧ K d kind ∧ Shaped (Represents d) d s kind ∧ Addable d.graph kind)
    (hb : Ready ⟨schemas, pending, steps + 1, fails⟩ b) :
    Goes ⟨schemas, pending, steps + 1, fails⟩ (makeComponent name s shape) b fun id c =>
      I c ∧ Dict.get? c.placed name = some id := by
  have hpending : name ∉ pending := by
    intro hmem
    obtain ⟨id, hid, -⟩ := hb.consistent.reserved name hmem
    rw [hnew] at hid
    cases hid
  have hready : Ready ⟨schemas, name :: pending, steps, fails⟩ (withReserved b name) :=
    ⟨hb.consistent.reserve hnew hs,
      Nat.le_of_lt_succ (Nat.lt_of_lt_of_le (unplaced_reserved hs hnew) hb.room)⟩
  rw [makeComponent]
  refine Ends.bind (P := fun id c => id = b.graph.size ∧ c = withReserved b name) ?_ ?_
  · rw [reserveComponent_eq]
    exact ⟨rfl, rfl⟩
  rintro _ _ ⟨rfl, rfl⟩
  refine Ends.bind (hshape _ hready hJ) fun kind c ⟨hbc, hJ, hK, hkind, hadd⟩ => ?_
  have hc := hready.advance hbc
  refine Ends.bind (admitNullInside_goes hc hadd s.keywords.nullable)
    fun filled d ⟨hcd, hplaced, hfilled, hadd⟩ => ?_
  obtain ⟨hJ, hK⟩ := hwatched.keeps hc.consistent hcd hplaced hJ hK
  have hbd := hbc.trans hcd
  have hid := hbd.placed name _ (get?_reserved_self b name)
  have hfills : Fills d s filled := hfilled.fills <|
    hkind.mono (fun s id h => h.later hcd.later hc.consistent.placedNodes) hcd.later
  have hfill := hcd.consistent.fill hid hs hpending hadd hfills s.keywords.description
  have hextended := (extends_reserved b name).trans hbd.extended
  refine ⟨⟨hfill, (hextended.modify (Nat.le_refl _) _).modify (Nat.le_refl _) _,
    fun other id hid => ?_⟩, hwatched.fill hcd.consistent hid hJ hK hfilled, hid⟩
  exact hbd.placed other id ((later_reserved hnew).placed other id hid)

/-- The node of a named schema, by induction on the steps that are left. -/
theorem component_goes {schemas : Dict Schema} {fails : GenerationError → Prop}
    (hall : AllResolved schemas fails) (steps : Nat) :
    ∀ {pending : List String} {name : String}, Dict.contains schemas name = true →
      ∀ b, Ready ⟨schemas, pending, steps, fails⟩ b →
        Goes ⟨schemas, pending, steps, fails⟩ (component schemas steps name) b fun id c =>
          Dict.get? c.placed name = some id := by
  induction steps with
  | zero =>
    intro pending name hcontains b hb
    obtain ⟨s, hs⟩ := Option.isSome_iff_exists.1 hcontains
    refine placedOr_goes hb (fun _ hid => hid) fun hnew => ?_
    have hroom := Nat.lt_of_lt_of_le (unplaced_reserved hs hnew) hb.room
    exact absurd hroom (Nat.not_lt_zero _)
  | succ steps ih =>
    intro pending name hcontains b hb
    obtain ⟨s, hs⟩ := Option.isSome_iff_exists.1 hcontains
    refine placedOr_goes hb (fun _ hid => hid) fun hnew => ?_
    rw [hs]
    have hshape : ShapeGoes ⟨schemas, name :: pending, steps, fails⟩ s
        (shapeOf (followTo schemas (component schemas steps)) s) := by
      refine shapeOf_goes ((hall name s hs).mono fun inner hinner reference href => ?_)
      exact followed_followTo (fun _ hname => ih hname) (hinner reference href)
    refine (makeComponent_goes (watchedFill_trivial schemas pending name s) hs hnew trivial
      (fun c hc _ => ?_) hb).mono fun _ _ _ hid => hid.2
    exact (hshape c hc).mono fun _ _ _ hkind => ⟨trivial, trivial, hkind⟩

/-! ## Mapping a document -/

variable {schemas : Dict Schema} {fails : GenerationError → Prop}

/-- A state between two schemas, where none waits. -/
theorem ready_of_consistent (hb : Consistent schemas [] b) :
    Ready ⟨schemas, [], schemas.length, fails⟩ b := ⟨hb, List.length_filter_le _ _⟩

theorem mapReference_goes (hall : AllResolved schemas fails) {reference : String}
    (h : Resolved schemas fails reference) :
    Followed ⟨schemas, [], schemas.length, fails⟩ (mapReference schemas) reference :=
  followed_followTo (fun _ hname => component_goes hall schemas.length hname) h

/-- Mapping a schema makes a node that stands for it. -/
theorem mapSchema_goes (hall : AllResolved schemas fails) {s : Schema}
    (hs : s.All (HeadResolved schemas fails)) (hb : Consistent schemas [] b) :
    Goes ⟨schemas, [], schemas.length, fails⟩ (mapSchema schemas s) b fun id c =>
      Represents c s id :=
  placeSchema_goes
    (hs.mono fun _ hinner reference href => mapReference_goes hall (hinner reference href)) b
    (ready_of_consistent hb)

/-- Mapping the named schemas makes their nodes. -/
theorem mapComponents_goes (hall : AllResolved schemas fails) (hb : Consistent schemas [] b) :
    Goes ⟨schemas, [], schemas.length, fails⟩ (mapComponents schemas) b fun _ c =>
      ∀ name ∈ Dict.keys schemas, Dict.contains c.placed name = true := by
  rw [mapComponents]
  have h : ∀ (names : List String), (∀ name ∈ names, Dict.contains schemas name = true) →
      ∀ b, Ready ⟨schemas, [], schemas.length, fails⟩ b →
        Goes ⟨schemas, [], schemas.length, fails⟩
          (names.forM fun name => discard (component schemas schemas.length name)) b fun _ c =>
          ∀ name ∈ names, Dict.contains c.placed name = true := by
    intro names
    induction names with
    | nil => exact fun _ b hb => goes_pure hb fun name h => absurd h List.not_mem_nil
    | cons name names ih =>
      intro hnames b hb
      have hname := component_goes hall schemas.length (hnames name List.mem_cons_self) b hb
      have hfirst : Goes ⟨schemas, [], schemas.length, fails⟩
          (discard (component schemas schemas.length name)) b fun _ c =>
            Dict.contains c.placed name = true :=
        goes_bind hb hname fun id c hc _ hid => goes_pure hc (by rw [Dict.contains, hid]; rfl)
      refine goes_bind hb hfirst fun _ c hc _ hcontains => ?_
      refine (ih (fun name h => hnames name (List.mem_cons_of_mem _ h)) c hc).mono
        fun _ d hcd hrest => List.forall_mem_cons.2 ⟨contains_of_placed hcd hcontains, hrest⟩
  exact h _ (fun _ => Dict.contains_of_mem_keys) b (ready_of_consistent hb)

/-- Mapping named and other schemas, in any order and number, leads from one state to the other. -/
inductive Leads (schemas : Dict Schema) (b : Building) : Building → Prop
  /-- Nothing is mapped. -/
  | refl : Leads schemas b b
  /-- The named schemas are mapped last. -/
  | components {c d : Building} (hbc : Leads schemas b c)
      (h : mapComponents schemas c = .ok ((), d)) : Leads schemas b d
  /-- A schema is mapped last. -/
  | schema {c d : Building} {s : Schema} {id : TypeId} (hbc : Leads schemas b c)
      (h : mapSchema schemas s c = .ok (id, d)) : Leads schemas b d

/-- If any error may end the mapping, there is nothing to ask of references. -/
theorem allResolved_of_true : AllResolved schemas fun _ => True :=
  fun _ s _ => Schema.all_of_forall (fun _ _ _ => .inr trivial) s

/-- Whatever is mapped, states between two schemas are consistent and keep what there was. -/
theorem Leads.advances (hbc : Leads schemas b c) (hb : Consistent schemas [] b) :
    Advances schemas [] b c := by
  induction hbc with
  | refl => exact .refl hb
  | components _ h ih =>
    exact ih.trans ((mapComponents_goes allResolved_of_true ih.consistent).of_ok h).1
  | @schema _ _ s _ _ h ih =>
    have hs : s.All (HeadResolved schemas fun _ => True) :=
      Schema.all_of_forall (fun _ _ _ => .inr trivial) s
    exact ih.trans ((mapSchema_goes allResolved_of_true hs ih.consistent).of_ok h).1

/-- A step that cannot fail has a result. -/
theorem Goes.exists_ok {m : Build α}
    (h : Goes ⟨schemas, [], schemas.length, fun _ => False⟩ m b Q) :
    ∃ a c, m b = .ok (a, c) ∧ Advances schemas [] b c ∧ Q a c := by
  rw [Goes] at h
  cases hm : m b with
  | ok result =>
    rw [hm] at h
    exact ⟨result.1, result.2, rfl, h⟩
  | error e =>
    rw [hm] at h
    exact h.elim

end TypedClient.OpenApi
