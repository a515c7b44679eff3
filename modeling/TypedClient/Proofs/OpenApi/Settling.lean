import TypedClient.Proofs.OpenApi.Contributions

/-!
# Nodes that go on showing contributions

Some named schemas wait for their shape while others are mapped.  What a node shows that does not
wait is there to stay, if no alias leads from it to one that does.

* `Settled` are the nodes that do not wait, `Onward` says that building has gone on, and `Continues`
  that a graph has kept the nodes that were settled;
* `mergedKind_eq_of_aliasedKind` says that what is merged is no alias of an object;
* `StillShows` says that a node shows the contributions to a schema whatever becomes of the state,
  `Upholds` that so do the nodes inside, at any depth, and `AllUpheld` that so do all named schemas
  that have got their shape.
-/

set_option autoImplicit false

namespace TypedClient.OpenApi

open TypedClient.Types

variable {schemas : Dict Schema} {pending : List String} {b c d : Building} {s t u o : Schema}
  {name other : String} {kind : TypeKind} {id inner : TypeId} {g h : TypeGraph}

/-! ## Graphs that keep settled nodes -/

/-- The node is not one of those that wait for their shape. -/
structure Settled (pending : List String) (b : Building) (id : TypeId) : Prop where
  /-- It is a node. -/
  lt : id < b.graph.size
  /-- It is not that of a name that waits. -/
  apart : ∀ name ∈ pending, Dict.get? b.placed name ≠ some id

/-- The graph is what the state may become when the schemas that wait have got their shape. -/
structure Continues (pending : List String) (b : Building) (h : TypeGraph) : Prop where
  /-- It is in order. -/
  sound : h.Sound
  /-- It has grown. -/
  grows : b.graph.Grows h
  /-- Nodes that were settled have kept their shape. -/
  kind_eq : ∀ id, Settled pending b id → h.kind id = b.graph.kind id

/-- Building has gone on from one state to the other, which may have other names that wait. -/
structure Onward (pending : List String) (b : Building) (pending' : List String) (c : Building) :
    Prop where
  /-- What there was is kept. -/
  later : Later b c
  /-- What was settled is settled. -/
  settled : ∀ id, Settled pending b id → Settled pending' c id
  /-- It has kept its shape. -/
  kind_eq : ∀ id, Settled pending b id → c.graph.kind id = b.graph.kind id

theorem Onward.continues {pending' : List String} (hbc : Onward pending b pending' c)
    (hh : Continues pending' c h) : Continues pending b h where
  sound := hh.sound
  grows := hbc.later.graph.trans hh.grows
  kind_eq id hid := (hh.kind_eq id (hbc.settled id hid)).trans (hbc.kind_eq id hid)

theorem continues_self (hb : Consistent schemas pending b) : Continues pending b b.graph :=
  ⟨hb.grown.toSound, .refl _, fun _ _ => rfl⟩

theorem Consistent.settled_of_anonymous (hb : Consistent schemas pending b)
    (hid : IsAnonymous b.graph id kind) : Settled pending b id := by
  refine ⟨hid.lt, fun name _ hplaced => ?_⟩
  obtain ⟨text, htext⟩ := hb.named name id hplaced
  rw [hid.nameOf] at htext
  cases htext

theorem Consistent.settled_of_kind (hb : Consistent schemas pending b) (hlt : id < b.graph.size)
    (hkind : b.graph.kind id ≠ .unknown) : Settled pending b id := by
  refine ⟨hlt, fun name hname hplaced => hkind ?_⟩
  obtain ⟨target, htarget, hunknown⟩ := hb.reserved name hname
  rw [hplaced, Option.some.injEq] at htarget
  rw [htarget, hunknown]

theorem Consistent.settled_of_placed (hb : Consistent schemas pending b)
    (hid : Dict.get? b.placed name = some id) (hname : name ∉ pending) : Settled pending b id := by
  refine ⟨hb.placedNodes name id hid, fun other hother hplaced => hname ?_⟩
  rwa [hb.injective name other id hid hplaced]

/-- Any step of building. -/
theorem Advances.onward (hbc : Advances schemas pending b c) (hb : Consistent schemas pending b) :
    Onward pending b pending c where
  later := hbc.later
  settled id hid := by
    refine ⟨hbc.extended.lt hid.lt, fun name hname hplaced => ?_⟩
    obtain ⟨target, htarget, -⟩ := hb.reserved name hname
    obtain rfl : target = id :=
      Option.some.inj ((hbc.placed name target htarget).symm.trans hplaced)
    exact hid.apart name hname htarget
  kind_eq _ hid := hbc.extended.kind_eq hid.lt

/-- A named schema gets a node, and waits for its shape. -/
theorem onward_reserved (hnew : Dict.get? b.placed name = none) :
    Onward pending b (name :: pending) (withReserved b name) where
  later := later_reserved hnew
  settled id hid := by
    refine ⟨(extends_reserved b name).lt hid.lt, fun other hother hplaced => ?_⟩
    by_cases hne : other = name
    · subst hne
      rw [get?_reserved_self, Option.some.injEq] at hplaced
      exact Nat.ne_of_gt hid.lt hplaced
    · rw [get?_reserved_of_ne hne] at hplaced
      exact hid.apart other ((List.mem_cons.1 hother).resolve_left hne) hplaced
  kind_eq id hid := (extends_reserved b name).kind_eq hid.lt

/-- It gets its shape. -/
theorem onward_filled (hb : Consistent schemas (name :: pending) b)
    (hid : Dict.get? b.placed name = some id) (kind : TypeKind) (text : Option String) :
    Onward (name :: pending) b pending (withShape b id kind text) := by
  obtain ⟨target, htarget, hunknown⟩ := hb.reserved name List.mem_cons_self
  obtain rfl : target = id := Option.some.inj (htarget.symm.trans hid)
  obtain ⟨label, hlabel⟩ := hb.named name target hid
  have hlater : Later b (withShape b target kind text) :=
    later_filled (by rw [hlabel]; exact Option.some_ne_none _) hunknown
  refine ⟨hlater, fun other hother => ?_, fun other hother => ?_⟩
  · exact ⟨hlater.graph.lt hother.lt, fun waiting hwaiting =>
      hother.apart waiting (List.mem_cons_of_mem _ hwaiting)⟩
  · refine kind_filled_of_ne ?_ kind text
    rintro rfl
    exact hother.apart name List.mem_cons_self hid

/-! ## Aliases -/

/-- Nodes of the same shape stand for the same. -/
theorem aliasedKind_of_kind_eq {other : TypeId} (hkind : h.kind id = h.kind other) (steps : Nat) :
    aliasedKind h id steps = aliasedKind h other steps := by
  cases steps with
  | zero => rfl
  | succ steps => rw [aliasedKind, aliasedKind, hkind]

/-- A node that is no alias stands for itself. -/
theorem aliasedKind_of_ne_alias (hkind : h.kind id = kind) (hid : id < h.size)
    (halias : ∀ member, kind ≠ .union [member]) : aliasedKind h id h.size = kind := by
  obtain ⟨steps, hsteps⟩ : ∃ n, h.size = n + 1 :=
    Nat.exists_eq_succ_of_ne_zero (Nat.ne_of_gt (Nat.zero_lt_of_lt hid))
  rw [hsteps, aliasedKind, hkind]
  split
  · rename_i member
    exact absurd rfl (halias member)
  · rfl

/-- An alias stands for what its member stands for. -/
theorem aliasedKind_of_alias (hh : h.Sound) (hid : id < h.size)
    (hkind : h.kind id = .union [inner]) :
    aliasedKind h id h.size = aliasedKind h inner h.size := by
  have hstep : aliasedKind h id (h.size + 1) = aliasedKind h inner h.size := by
    rw [aliasedKind, hkind]
  rw [← hstep]
  by_cases hunknown : aliasedKind h id h.size = .unknown
  · by_contra hne
    rw [hunknown] at hne
    exact aliasedKind_size_ne_unknown hh hid (Ne.symm hne) hunknown
  · exact (aliasedKind_of_grows hh (.refl h) hid (Nat.le_succ _) hunknown).symm

/-- What is merged is an alias of no object: it is an object itself, or stands for none. -/
theorem mergedKind_eq_of_aliasedKind (hg : g.Sound) (hh : h.Sound) (hgh : g.Grows h)
    {ids : List TypeId} (hids : ∀ id ∈ ids, id < g.size) (hid : id < h.size)
    (hkind : h.kind id = mergedKind g ids) {fields : List Field}
    (hobject : aliasedKind h id h.size = .object fields) : mergedKind g ids = .object fields := by
  have hsame (halias : ∀ member, mergedKind g ids ≠ .union [member]) :
      mergedKind g ids = .object fields :=
    (aliasedKind_of_ne_alias hkind hid halias).symm.trans hobject
  -- the single other node is known to be no object, and stays so
  have hother {single : TypeId} (hsingle : otherNodes g ids = [single]) :
      aliasedKind h single h.size ≠ .object fields ∧ h.kind single = g.kind single := by
    obtain ⟨hmem, hshape⟩ :=
      List.mem_filter.1 (hsingle ▸ List.mem_cons_self : single ∈ otherNodes g ids)
    have hknown : aliasedKind g single g.size ≠ .unknown := fun hunknown => by
      rw [hunknown] at hshape
      exact Bool.false_ne_true hshape
    rw [aliasedKind_of_grows hg hgh (hids single hmem) hgh.size_le hknown]
    refine ⟨fun hfields => ?_,
      hgh.kind_eq single (hids single hmem) (.inr fun hunknown => hknown ?_)⟩
    · rw [hfields] at hshape
      exact Bool.false_ne_true hshape
    · exact aliasedKind_of_ne_alias hunknown (hids single hmem) fun _ => TypeKind.noConfusion
  rw [mergedKind_eq] at hkind hsame ⊢
  split
  · rename_i hempty
    rw [if_pos hempty] at hkind hsame
    split
    · rename_i single hsingle
      obtain ⟨hne, hsingleKind⟩ := hother hsingle
      rw [hsingle] at hkind
      dsimp only at hkind
      split at hkind
      · exact absurd ((aliasedKind_of_alias hh hid hkind).symm.trans hobject) hne
      · exact absurd
          ((aliasedKind_of_kind_eq (hkind.trans hsingleKind.symm) _).symm.trans hobject) hne
    · rename_i hnone
      split at hsame
      · rename_i single hsingle
        exact absurd hsingle (hnone single)
      · exact hsame fun _ => TypeKind.noConfusion
  · rename_i hempty
    rw [if_neg hempty] at hsame
    exact hsame fun _ => TypeKind.noConfusion

/-! ## Nodes that show contributions -/

/-- Whatever becomes of the state, the node shows the contributions to the schema. -/
def StillShows (schemas : Dict Schema) (pending : List String) (b : Building) (s : Schema)
    (id : TypeId) : Prop :=
  ∀ h, Continues pending b h → Shows (Contributes schemas s) (aliasedKind h id h.size)

/-- So does any node of the shape. -/
def ShapeShows (schemas : Dict Schema) (pending : List String) (b : Building) (s : Schema)
    (kind : TypeKind) : Prop :=
  ∀ h, Continues pending b h → ∀ id < h.size, h.kind id = kind →
    Shows (Contributes schemas s) (aliasedKind h id h.size)

/-- So does the node that stands for the schema, null left aside. -/
def NodeShows (schemas : Dict Schema) (pending : List String) (b : Building) (s : Schema)
    (id : TypeId) : Prop :=
  ∃ inner, WithNull b.graph inner s.keywords.nullable id ∧ inner < b.graph.size ∧
    StillShows schemas pending b s inner

variable {pending' : List String}

theorem StillShows.onward (hid : StillShows schemas pending b s id)
    (hbc : Onward pending b pending' c) : StillShows schemas pending' c s id :=
  fun h hh => hid h (hbc.continues hh)

theorem ShapeShows.onward (hkind : ShapeShows schemas pending b s kind)
    (hbc : Onward pending b pending' c) : ShapeShows schemas pending' c s kind :=
  fun h hh => hkind h (hbc.continues hh)

theorem NodeShows.onward (hid : NodeShows schemas pending b s id)
    (hbc : Onward pending b pending' c) : NodeShows schemas pending' c s id := by
  obtain ⟨inner, hnull, hlt, hinner⟩ := hid
  exact ⟨inner, hnull.grows hbc.later.graph hlt, hbc.later.graph.lt hlt, hinner.onward hbc⟩

/-- A settled node of the shape. -/
theorem ShapeShows.stillShows (hkind : ShapeShows schemas pending b s kind)
    (hid : Settled pending b id) (heq : b.graph.kind id = kind) :
    StillShows schemas pending b s id :=
  fun h hh => hkind h hh id (hh.grows.lt hid.lt) ((hh.kind_eq id hid).trans heq)

/-- A node beside null shows nothing. -/
theorem shows_union_pair {first second : TypeId} (hid : id < h.size)
    (hkind : h.kind id = .union [first, second]) :
    Shows (fun o => true = false ∧ Contributes schemas s o) (aliasedKind h id h.size) := by
  rw [aliasedKind_of_ne_alias hkind hid fun _ heq => by simp at heq]
  exact shows_of_ne_object (fun _ => TypeKind.noConfusion) fun _ ho => Bool.noConfusion ho.1

/-- What the node shows in the end, null included. -/
theorem NodeShows.shows (hid : NodeShows schemas pending b s id) (hb : Consistent schemas pending b)
    (hh : Continues pending b h) :
    Shows (fun o => s.keywords.nullable = false ∧ Contributes schemas s o)
      (aliasedKind h id h.size) := by
  obtain ⟨inner, hnull, hlt, hinner⟩ := hid
  generalize s.keywords.nullable = nullable at hnull
  cases hnull with
  | plain => exact (hinner h hh).congr fun o => (and_iff_right rfl).symm
  | null hkind =>
    have hsettled := hb.settled_of_kind hlt (by rw [hkind]; exact TypeKind.noConfusion)
    have hnull := (hh.kind_eq id hsettled).trans hkind
    rw [aliasedKind_of_ne_alias hnull (hh.grows.lt hlt) fun _ => TypeKind.noConfusion]
    exact shows_of_ne_object (fun _ => TypeKind.noConfusion) fun _ ho => Bool.noConfusion ho.1
  | union _ hid =>
    have hsettled := hb.settled_of_anonymous hid
    exact shows_union_pair (hh.grows.lt hid.lt) ((hh.kind_eq id hsettled).trans hid.kind)

/-! ## Schemas whose nodes show contributions at any depth -/

/-- The node stands for the schema, and so do the nodes inside for the schemas inside; all of them
have the property. -/
def RepresentsWith (P : Schema → TypeId → Prop) (b : Building) (s : Schema) (id : TypeId) : Prop :=
  ∃ R : Schema → TypeId → Prop, (∀ s id, R s id → Stands R b s id ∧ P s id) ∧ R s id

section RepresentsWith

variable {P Q : Schema → TypeId → Prop}

theorem RepresentsWith.represents (hid : RepresentsWith P b s id) : Represents b s id := by
  obtain ⟨R, hR, hid⟩ := hid
  exact ⟨R, fun s id h => (hR s id h).1, hid⟩

theorem RepresentsWith.holds (hid : RepresentsWith P b s id) : P s id := by
  obtain ⟨R, hR, hid⟩ := hid
  exact (hR s id hid).2

theorem RepresentsWith.stands (hid : RepresentsWith P b s id) (hb : PlacedNodes b) :
    Stands (RepresentsWith P b) b s id := by
  obtain ⟨R, hR, hid⟩ := hid
  exact (hR s id hid).1.mono (fun s id h => ⟨R, hR, h⟩) (.refl b) hb

/-- Whatever holds of such nodes is a property to stand for schemas with. -/
theorem RepresentsWith.imp (hid : RepresentsWith P b s id) (hb : PlacedNodes b)
    (hPQ : ∀ s id, RepresentsWith P b s id → Q s id) : RepresentsWith Q b s id :=
  ⟨RepresentsWith P b, fun s id h => ⟨h.stands hb, hPQ s id h⟩, hid⟩

theorem Stands.representsWith (hid : Stands (RepresentsWith P b) b s id) (hholds : P s id)
    (hb : PlacedNodes b) : RepresentsWith P b s id := by
  refine ⟨fun s id => Stands (RepresentsWith P b) b s id ∧ P s id, fun s id h => ⟨?_, h.2⟩,
    hid, hholds⟩
  exact h.1.mono (fun s id h => ⟨h.stands hb, h.holds⟩) (.refl b) hb

theorem RepresentsWith.later (hid : RepresentsWith P b s id) (hbc : Later b c) (hb : PlacedNodes b)
    (hPQ : ∀ s id, P s id → Q s id) : RepresentsWith Q c s id := by
  obtain ⟨R, hR, hid⟩ := hid
  exact ⟨R, fun s id h => ⟨(hR s id h).1.mono (fun _ _ h => h) hbc hb, hPQ s id (hR s id h).2⟩, hid⟩

end RepresentsWith

/-- The node stands for the schema and shows contributions, at any depth. -/
abbrev Upholds (schemas : Dict Schema) (pending : List String) (b : Building) :
    Schema → TypeId → Prop := RepresentsWith (NodeShows schemas pending b) b

theorem Upholds.onward (hid : Upholds schemas pending b s id) (hbc : Onward pending b pending' c)
    (hb : PlacedNodes b) : Upholds schemas pending' c s id :=
  RepresentsWith.later hid hbc.later hb fun _ _ h => h.onward hbc

/-- The node of a named schema is the given one, or a union of that with null. -/
inductive NullInside (g : TypeGraph) (inner : TypeId) : (nullable : Bool) → TypeId → Prop
  /-- Nothing is asked for. -/
  | plain : NullInside g inner false inner
  /-- A union with null. -/
  | union {id null : TypeId} (hkind : g.kind id = .union [inner, null]) : NullInside g inner true id

/-- The node of a named schema has the shape of the schema, null left aside, and shows
contributions, at any depth. -/
structure UpheldBy (schemas : Dict Schema) (pending : List String) (b : Building) (s : Schema)
    (id inner : TypeId) : Prop where
  /-- Null is inside of it. -/
  null : NullInside b.graph inner s.keywords.nullable id
  /-- It has its shape. -/
  settled : Settled pending b inner
  /-- The shape is right. -/
  shaped : Shaped (Upholds schemas pending b) b s (b.graph.kind inner)
  /-- It shows contributions. -/
  shows : StillShows schemas pending b s inner

/-- All named schemas that have got their shape show contributions. -/
def AllUpheld (schemas : Dict Schema) (pending : List String) (b : Building) : Prop :=
  ∀ name id s, Dict.get? b.placed name = some id → name ∉ pending →
    Dict.get? schemas name = some s →
    ∃ inner, UpheldBy schemas pending b s id inner

theorem UpheldBy.onward (hinner : UpheldBy schemas pending b s id inner)
    (hid : Settled pending b id) (hbc : Onward pending b pending' c) (hb : PlacedNodes b) :
    UpheldBy schemas pending' c s id inner where
  null := by
    obtain ⟨hnull, -, -, -⟩ := hinner
    generalize s.keywords.nullable = nullable at hnull
    cases hnull with
    | plain => exact .plain
    | union hkind => exact .union ((hbc.kind_eq id hid).trans hkind)
  settled := hbc.settled inner hinner.settled
  shaped := by
    rw [hbc.kind_eq inner hinner.settled]
    exact hinner.shaped.mono (fun s id h => h.onward hbc hb) hbc.later
  shows := hinner.shows.onward hbc

/-- Named schemas go on showing contributions while no other one gets its shape. -/
theorem AllUpheld.onward (hall : AllUpheld schemas pending b) (hb : Consistent schemas pending b)
    (hbc : Onward pending b pending' c)
    (hplaced : ∀ name id, Dict.get? c.placed name = some id → name ∉ pending' →
      Dict.get? b.placed name = some id ∧ name ∉ pending) : AllUpheld schemas pending' c := by
  intro name id s hid hname hs
  obtain ⟨hid, hname⟩ := hplaced name id hid hname
  obtain ⟨inner, hinner⟩ := hall name id s hid hname hs
  exact ⟨inner, hinner.onward (hb.settled_of_placed hid hname) hbc hb.placedNodes⟩

/-- What the node of a named schema shows in the end, null included. -/
theorem UpheldBy.node_shows (hinner : UpheldBy schemas pending b s id inner)
    (hid : Settled pending b id) (hh : Continues pending b h) :
    Shows (fun o => s.keywords.nullable = false ∧ Contributes schemas s o)
      (aliasedKind h id h.size) := by
  obtain ⟨hnull, -, -, hshows⟩ := hinner
  generalize s.keywords.nullable = nullable at hnull
  cases hnull with
  | plain => exact (hshows h hh).congr fun o => (and_iff_right rfl).symm
  | union hkind => exact shows_union_pair (hh.grows.lt hid.lt) ((hh.kind_eq id hid).trans hkind)

end TypedClient.OpenApi
