import TypedClient.Proofs.Naming.TypeName
import TypedClient.Proofs.OpenApi.Representation

/-!
# States of building

The state of building holds a graph and the nodes of the named schemas that have been met.  Some of
these are still waiting for their shape.

* `Consistent` says what is true of every state, given the names of the schemas that wait;
* `Advances` says what a step of building leads to: a consistent state that has kept all nodes;
* `Ends` says how a step may end: with a result and a state, or with an error.
-/

set_option autoImplicit false

namespace TypedClient.OpenApi

open TypedClient.Types

/-! ## How steps end -/

/-- A step ends with a result and a state of which `Q` holds, or with an error that is allowed. -/
def Ends {α : Type} (fails : GenerationError → Prop) (Q : α → Building → Prop) :
    Except GenerationError (α × Building) → Prop
  | .ok (a, b) => Q a b
  | .error e => fails e

section Ends

variable {α β : Type} {fails : GenerationError → Prop} {P Q : α → Building → Prop} {b : Building}

theorem Ends.mono {outcome : Except GenerationError (α × Building)} (h : Ends fails P outcome)
    (hPQ : ∀ a c, P a c → Q a c) : Ends fails Q outcome := by
  cases outcome with
  | ok result => exact hPQ _ _ h
  | error e => exact h

/-- Two steps in a row. -/
theorem Ends.bind {S : β → Building → Prop} {m : Build α} {f : α → Build β}
    (h : Ends fails P (m b)) (hf : ∀ a c, P a c → Ends fails S (f a c)) :
    Ends fails S ((m >>= f) b) := by
  change Ends fails S (m b >>= fun result => f result.1 result.2)
  cases hm : m b with
  | ok result =>
    rw [hm] at h
    exact hf _ _ h
  | error e =>
    rw [hm] at h
    exact h

theorem ends_pure {a : α} (h : Q a b) : Ends fails Q ((pure a : Build α) b) := h

/-- A step that ends well has a result. -/
theorem Ends.of_ok {outcome : Except GenerationError (α × Building)} {a : α} {c : Building}
    (h : Ends fails Q outcome) (hok : outcome = .ok (a, c)) : Q a c := by
  rw [hok] at h
  exact h

end Ends

/-! ## Consistent states -/

/-- What is true of a state of building while the named schemas of the list wait for their shape. -/
structure Consistent (schemas : Dict Schema) (pending : List String) (b : Building) : Prop where
  /-- The graph is in order. -/
  grown : b.graph.Grown
  /-- The nodes of named schemas have names. -/
  named : ∀ name id, Dict.get? b.placed name = some id → ∃ text, b.graph.nameOf id = some text
  /-- The names are names of schemas. -/
  known : ∀ name id, Dict.get? b.placed name = some id → ∃ s, Dict.get? schemas name = some s
  /-- Named schemas have nodes of their own. -/
  injective : ∀ name other id, Dict.get? b.placed name = some id →
    Dict.get? b.placed other = some id → name = other
  /-- Only named schemas have nodes with names. -/
  covered : ∀ id text, b.graph.nameOf id = some text → ∃ name, Dict.get? b.placed name = some id
  /-- Names of nodes can be declared. -/
  declared : ∀ id text, b.graph.nameOf id = some text → Declaration.IsDeclaredName text
  /-- No node is a choice among nothing. -/
  offers : ∀ id, (b.graph.kind id).Offers
  /-- Nodes that wait are placed, and nothing is known of them. -/
  reserved : ∀ name ∈ pending, ∃ id, Dict.get? b.placed name = some id ∧ b.graph.kind id = .unknown
  /-- The other nodes of named schemas have their shapes. -/
  filled : ∀ name id s, Dict.get? b.placed name = some id → name ∉ pending →
    Dict.get? schemas name = some s → Fills b s (b.graph.kind id)

/-- A step of building has led from one state to the other. -/
structure Advances (schemas : Dict Schema) (pending : List String) (b c : Building) : Prop where
  /-- The state is consistent. -/
  consistent : Consistent schemas pending c
  /-- All nodes have been kept. -/
  extended : b.graph.Extends c.graph
  /-- Named schemas have the nodes they had. -/
  placed : ∀ name id, Dict.get? b.placed name = some id → Dict.get? c.placed name = some id

variable {schemas : Dict Schema} {pending : List String} {b c d : Building} {s : Schema}
  {kind : TypeKind} {id : TypeId} {name : String}

theorem Consistent.placedNodes (hb : Consistent schemas pending b) : PlacedNodes b := by
  intro name id hid
  obtain ⟨text, htext⟩ := hb.named name id hid
  exact TypeGraph.lt_of_nameOf htext

theorem Advances.refl (hb : Consistent schemas pending b) : Advances schemas pending b b :=
  ⟨hb, .refl b.graph, fun _ _ hid => hid⟩

theorem Advances.trans (hbc : Advances schemas pending b c) (hcd : Advances schemas pending c d) :
    Advances schemas pending b d :=
  ⟨hcd.consistent, hbc.extended.trans hcd.extended,
    fun name id hid => hcd.placed name id (hbc.placed name id hid)⟩

theorem Advances.later (hbc : Advances schemas pending b c) : Later b c :=
  ⟨hbc.extended.grows, hbc.placed⟩

theorem consistent_empty (schemas : Dict Schema) : Consistent schemas [] Building.empty where
  grown := TypeGraph.Grown.empty
  named := fun _ _ h => nomatch h
  known := fun _ _ h => nomatch h
  injective := fun _ _ _ h => nomatch h
  covered := fun _ _ h => absurd (TypeGraph.lt_of_nameOf h) (Nat.not_lt_zero _)
  declared := fun _ _ h => absurd (TypeGraph.lt_of_nameOf h) (Nat.not_lt_zero _)
  offers := fun _ => by
    rw [TypeGraph.kind_of_size_le (Nat.zero_le _)]
    trivial
  reserved := fun _ h => absurd h List.not_mem_nil
  filled := fun _ _ _ h => nomatch h

/-! ## Anonymous nodes -/

/-- Anonymous nodes behind the others leave a state consistent. -/
theorem Consistent.extend (hb : Consistent schemas pending b) {g : TypeGraph} (hg : g.Grown)
    (hext : b.graph.Extends g) (hname : ∀ id, b.graph.size ≤ id → g.nameOf id = none)
    (hoffers : ∀ id, b.graph.size ≤ id → (g.kind id).Offers) :
    Advances schemas pending b ⟨g, b.placed⟩ := by
  have hlater : Later b ⟨g, b.placed⟩ := ⟨hext.grows, fun _ _ hid => hid⟩
  have hold {id : TypeId} {text : String} (htext : g.nameOf id = some text) :
      b.graph.nameOf id = some text := by
    rcases Nat.lt_or_ge id b.graph.size with hlt | hge
    · rwa [hext.nameOf_eq hlt] at htext
    · rw [hname id hge] at htext
      cases htext
  have hkind {name : String} {id : TypeId} (hid : Dict.get? b.placed name = some id) :
      g.kind id = b.graph.kind id := hext.kind_eq (hb.placedNodes name id hid)
  refine ⟨?_, hext, fun _ _ hid => hid⟩
  exact {
    grown := hg
    named := fun name id hid => by
      obtain ⟨text, htext⟩ := hb.named name id hid
      exact ⟨text, by rw [hext.nameOf_eq (TypeGraph.lt_of_nameOf htext), htext]⟩
    known := hb.known
    injective := hb.injective
    covered := fun id text htext => hb.covered id text (hold htext)
    declared := fun id text htext => hb.declared id text (hold htext)
    offers := fun id => by
      rcases Nat.lt_or_ge id b.graph.size with hlt | hge
      · rw [hext.kind_eq hlt]
        exact hb.offers id
      · exact hoffers id hge
    reserved := fun name hname => by
      obtain ⟨id, hid, hunknown⟩ := hb.reserved name hname
      exact ⟨id, hid, by rw [hkind hid, hunknown]⟩
    filled := fun name id s hid hpending hs => by
      rw [hkind hid]
      exact (hb.filled name id s hid hpending hs).later hlater hb.placedNodes }

/-- A shape that may be added to a graph. -/
structure Addable (g : TypeGraph) (kind : TypeKind) : Prop where
  /-- It refers to nodes. -/
  references : ∀ child ∈ kind.references, child < g.size
  /-- It is no choice among nothing. -/
  offers : kind.Offers

theorem addable_unknown (g : TypeGraph) : Addable g .unknown :=
  ⟨fun _ h => absurd h List.not_mem_nil, trivial⟩

theorem addable_primitive (g : TypeGraph) (p : Primitive) : Addable g (.primitive p) :=
  ⟨fun _ h => absurd h List.not_mem_nil, trivial⟩

theorem addable_union {g : TypeGraph} {members : List TypeId} (hne : members ≠ [])
    (h : ∀ member ∈ members, member < g.size) : Addable g (.union members) := ⟨h, hne⟩

theorem Addable.offers_add {g : TypeGraph} (hkind : Addable g kind) (hid : g.size ≤ id) :
    ((g.add kind).kind id).Offers := by
  rcases TypeGraph.kind_add_of_size_le hid kind with h | h
  · rw [h]
    exact hkind.offers
  · rw [h]
    trivial

theorem Consistent.add (hb : Consistent schemas pending b) (hkind : Addable b.graph kind) :
    Advances schemas pending b ⟨b.graph.add kind, b.placed⟩ :=
  hb.extend (hb.grown.add hkind.references) (TypeGraph.extends_add b.graph kind)
    (fun _ hid => TypeGraph.nameOf_add_of_size_le hid kind) fun _ hid => hkind.offers_add hid

/-- A node that is added and then described. -/
theorem Consistent.add_described (hb : Consistent schemas pending b) (hkind : Addable b.graph kind)
    (text : Option String) :
    Advances schemas pending b
        ⟨(b.graph.add kind).setDescription b.graph.size text, b.placed⟩ ∧
      IsAnonymous ((b.graph.add kind).setDescription b.graph.size text) b.graph.size kind := by
  have hext : b.graph.Extends ((b.graph.add kind).setDescription b.graph.size text) :=
    (TypeGraph.extends_add b.graph kind).modify (Nat.le_refl _) _
  have hadd := TypeGraph.isAnonymous_add b.graph kind
  refine ⟨hb.extend ((hb.grown.add hkind.references).setDescription _ _) hext (fun id hid => ?_)
    fun id hid => ?_, ?_, ?_, ?_⟩
  · rw [TypeGraph.nameOf_setDescription]
    exact TypeGraph.nameOf_add_of_size_le hid kind
  · rw [TypeGraph.kind_setDescription]
    exact hkind.offers_add hid
  · rw [TypeGraph.size_setDescription]
    exact hadd.lt
  · rw [TypeGraph.nameOf_setDescription, hadd.nameOf]
  · rw [TypeGraph.kind_setDescription, hadd.kind]

/-! ## Named nodes -/

/-- The state in which the node of a named schema has been reserved. -/
def withReserved (b : Building) (name : String) : Building :=
  ⟨(b.graph.reserve (b.graph.uniqueName (Naming.typeName name))).1,
    Dict.insert b.placed name b.graph.size⟩

theorem reserveComponent_eq (b : Building) (name : String) :
    reserveComponent name b = .ok (b.graph.size, withReserved b name) := by
  rw [reserveComponent, withReserved,
    TypeGraph.reserve_of_lookup_none (Naming.lookup_uniqueName _ _)]

theorem get?_reserved_self (b : Building) (name : String) :
    Dict.get? (withReserved b name).placed name = some b.graph.size := Dict.get?_insert_self ..

theorem get?_reserved_of_ne {other : String} (hne : other ≠ name) :
    Dict.get? (withReserved b name).placed other = Dict.get? b.placed other :=
  Dict.get?_insert_of_ne _ _ hne

theorem kind_reserved (b : Building) (name : String) (id : TypeId) :
    (withReserved b name).graph.kind id = b.graph.kind id := TypeGraph.kind_reserve _ _ id

theorem extends_reserved (b : Building) (name : String) :
    b.graph.Extends (withReserved b name).graph := TypeGraph.extends_reserve _ _

theorem later_reserved (hnew : Dict.get? b.placed name = none) : Later b (withReserved b name) := by
  refine ⟨(extends_reserved b name).grows, fun other id hid => ?_⟩
  have hne : other ≠ name := by
    rintro rfl
    rw [hnew] at hid
    cases hid
  rwa [get?_reserved_of_ne hne]

/-- A named schema has the node that was reserved for it, or the one it had. -/
theorem get?_reserved_eq_some {other : String} :
    Dict.get? (withReserved b name).placed other = some id ↔
      (other = name ∧ b.graph.size = id) ∨
        (other ≠ name ∧ Dict.get? b.placed other = some id) := Dict.get?_insert_eq_some_iff

/-- A node with a name is the one that was reserved, or had its name. -/
theorem nameOf_reserved_eq_some {text : String} :
    (withReserved b name).graph.nameOf id = some text ↔
      (id = b.graph.size ∧ text = b.graph.uniqueName (Naming.typeName name)) ∨
        b.graph.nameOf id = some text :=
  TypeGraph.nameOf_reserve_eq_some_iff (Naming.lookup_uniqueName _ _)

/-- The node that was reserved is none that a named schema had. -/
theorem injective_reserved (hb : Consistent schemas pending b) {first second : String}
    (hfirst : Dict.get? (withReserved b name).placed first = some id)
    (hsecond : Dict.get? (withReserved b name).placed second = some id) : first = second := by
  rcases get?_reserved_eq_some.1 hfirst with ⟨rfl, rfl⟩ | ⟨-, hbefore⟩
  · rcases get?_reserved_eq_some.1 hsecond with ⟨rfl, -⟩ | ⟨-, hbefore⟩
    · rfl
    · exact absurd (hb.placedNodes _ _ hbefore) (Nat.lt_irrefl _)
  · rcases get?_reserved_eq_some.1 hsecond with ⟨-, rfl⟩ | ⟨-, hother⟩
    · exact absurd (hb.placedNodes _ _ hbefore) (Nat.lt_irrefl _)
    · exact hb.injective first second id hbefore hother

/-- A node that is reserved waits for its shape. -/
theorem Consistent.reserve (hb : Consistent schemas pending b)
    (hnew : Dict.get? b.placed name = none) (hs : Dict.get? schemas name = some s) :
    Consistent schemas (name :: pending) (withReserved b name) := by
  have hlater := later_reserved hnew
  exact {
    grown := hb.grown.reserve _
    named := fun other id hid => by
      rcases get?_reserved_eq_some.1 hid with ⟨-, rfl⟩ | ⟨-, hid⟩
      · exact ⟨_, nameOf_reserved_eq_some.2 (.inl ⟨rfl, rfl⟩)⟩
      · obtain ⟨text, htext⟩ := hb.named other id hid
        exact ⟨text, nameOf_reserved_eq_some.2 (.inr htext)⟩
    known := fun other id hid => by
      rcases get?_reserved_eq_some.1 hid with ⟨rfl, -⟩ | ⟨-, hid⟩
      · exact ⟨s, hs⟩
      · exact hb.known other id hid
    injective := fun _ _ _ hfirst hsecond => injective_reserved hb hfirst hsecond
    covered := fun id text htext => by
      rcases nameOf_reserved_eq_some.1 htext with ⟨rfl, -⟩ | htext
      · exact ⟨name, get?_reserved_self b name⟩
      · obtain ⟨other, hother⟩ := hb.covered id text htext
        exact ⟨other, hlater.placed other id hother⟩
    declared := fun id text htext => by
      rcases nameOf_reserved_eq_some.1 htext with ⟨-, rfl⟩ | htext
      · exact Naming.isDeclaredName_freeName _ (Naming.isDeclaredName_typeName name)
      · exact hb.declared id text htext
    offers := fun id => by
      rw [kind_reserved]
      exact hb.offers id
    reserved := fun other hother => by
      rcases List.mem_cons.1 hother with rfl | hother
      · refine ⟨_, get?_reserved_self b _, ?_⟩
        rw [kind_reserved, TypeGraph.kind_of_size_le (Nat.le_refl _)]
      · obtain ⟨id, hid, hunknown⟩ := hb.reserved other hother
        exact ⟨id, hlater.placed other id hid, (kind_reserved b name id).trans hunknown⟩
    filled := fun other id t hid hpending ht => by
      rw [List.mem_cons, not_or] at hpending
      rcases get?_reserved_eq_some.1 hid with ⟨rfl, -⟩ | ⟨-, hid⟩
      · exact absurd rfl hpending.1
      · rw [kind_reserved]
        exact (hb.filled other id t hid hpending.2 ht).later hlater hb.placedNodes }

/-- The state in which a node has got its shape. -/
def withShape (c : Building) (id : TypeId) (kind : TypeKind) (text : Option String) : Building :=
  ⟨(c.graph.setKind id kind).setDescription id text, c.placed⟩

theorem nameOf_filled (c : Building) (id : TypeId) (kind : TypeKind) (text : Option String)
    (other : TypeId) : (withShape c id kind text).graph.nameOf other = c.graph.nameOf other := by
  rw [withShape, TypeGraph.nameOf_setDescription, TypeGraph.nameOf_setKind]

theorem kind_filled_self (hid : id < c.graph.size) (kind : TypeKind) (text : Option String) :
    (withShape c id kind text).graph.kind id = kind := by
  rw [withShape, TypeGraph.kind_setDescription, TypeGraph.kind_setKind_self hid]

theorem kind_filled_of_ne {other : TypeId} (hne : other ≠ id) (kind : TypeKind)
    (text : Option String) : (withShape c id kind text).graph.kind other = c.graph.kind other := by
  rw [withShape, TypeGraph.kind_setDescription, TypeGraph.kind_setKind_of_ne _ hne]

/-- A node of which nothing was known gets its shape. -/
theorem later_filled {text : Option String} (hname : c.graph.nameOf id ≠ none)
    (hunknown : c.graph.kind id = .unknown) : Later c (withShape c id kind text) := by
  refine ⟨⟨?_, fun other _ => nameOf_filled c id kind text other, fun other hother hkept => ?_⟩,
    fun _ _ hid => hid⟩
  · have hsize : (withShape c id kind text).graph.size = c.graph.size := by
      rw [withShape, TypeGraph.size_setDescription, TypeGraph.size_setKind]
    exact Nat.le_of_eq hsize.symm
  · refine kind_filled_of_ne ?_ kind text
    rintro rfl
    exact hkept.elim hname fun h => h hunknown

/-- A node that has got its shape waits no longer. -/
theorem Consistent.fill (hc : Consistent schemas (name :: pending) c)
    (hid : Dict.get? c.placed name = some id) (hs : Dict.get? schemas name = some s)
    (hname : name ∉ pending) (hkind : Addable c.graph kind) (hfills : Fills c s kind)
    (text : Option String) : Consistent schemas pending (withShape c id kind text) := by
  obtain ⟨label, hlabel⟩ := hc.named name id hid
  have hlt := TypeGraph.lt_of_nameOf hlabel
  have hnamed : c.graph.nameOf id ≠ none := by
    rw [hlabel]
    exact Option.some_ne_none _
  obtain ⟨_, hid', hunknown⟩ := hc.reserved name List.mem_cons_self
  rw [hid, Option.some.injEq] at hid'
  subst hid'
  have hlater : Later c (withShape c id kind text) := later_filled hnamed hunknown
  have hother {other : String} {target : TypeId} (hne : other ≠ name)
      (htarget : Dict.get? c.placed other = some target) :
      (withShape c id kind text).graph.kind target = c.graph.kind target := by
    refine kind_filled_of_ne ?_ kind text
    rintro rfl
    exact hne (hc.injective other name _ htarget hid)
  refine {
    grown := (hc.grown.setKind hnamed hkind.references).setDescription _ _, named := ?_
    known := hc.known, injective := hc.injective, covered := ?_, declared := ?_, offers := ?_
    reserved := ?_, filled := ?_ }
  · intro other target htarget
    rw [nameOf_filled]
    exact hc.named other target htarget
  · intro target label htarget
    rw [nameOf_filled] at htarget
    exact hc.covered target label htarget
  · intro target label htarget
    rw [nameOf_filled] at htarget
    exact hc.declared target label htarget
  · intro target
    by_cases heq : target = id
    · subst heq
      rw [kind_filled_self hlt]
      exact hkind.offers
    · rw [kind_filled_of_ne heq]
      exact hc.offers target
  · intro other hpending
    obtain ⟨target, htarget, hunknown⟩ := hc.reserved other (List.mem_cons_of_mem _ hpending)
    have hne : other ≠ name := fun heq => hname (heq ▸ hpending)
    exact ⟨target, htarget, by rw [hother hne htarget, hunknown]⟩
  · intro other target t htarget hpending ht
    by_cases heq : other = name
    · subst heq
      obtain rfl : id = target := Option.some.inj (hid.symm.trans htarget)
      obtain rfl : s = t := Option.some.inj (hs.symm.trans ht)
      rw [kind_filled_self hlt]
      exact hfills.later hlater hc.placedNodes
    · rw [hother heq htarget]
      refine (hc.filled other target t htarget ?_ ht).later hlater hc.placedNodes
      rw [List.mem_cons, not_or]
      exact ⟨heq, hpending⟩

end TypedClient.OpenApi
