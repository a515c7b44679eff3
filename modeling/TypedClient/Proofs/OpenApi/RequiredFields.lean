import TypedClient.Proofs.OpenApi.Components
import TypedClient.Proofs.OpenApi.Settling

/-!
# Required fields of merged objects

Where named schemas do not refer back to themselves, whatever a schema merges has its shape when it
is merged, so that a merged object shows all contributions and goes on showing them.

* `OwnShaped.shapeShows`, `shapeShows_merged` and `shapeShows_reference` are the ways in which a
  schema gets its shape;
* `shapeOf_upholds` puts them together by induction on the schema, and `component_upholds` follows
  the references by induction on the steps that are left;
* `merged_required` says which fields of merged objects are required, at any depth of any schema,
  and `not_required_titled` shows a list of required names that is not heeded.
-/

set_option autoImplicit false

namespace TypedClient.OpenApi

open Relation TypedClient.Types

variable {schemas : Dict Schema} {pending : List String} {b c d : Building} {s t u o : Schema}
  {name other reference : String} {kind : TypeKind} {id inner : TypeId} {g h : TypeGraph}

/-! ## Schemas that do not come back to themselves -/

/-- A reference somewhere in the first of the named schemas names the second. -/
def Refers (schemas : Dict Schema) (name other : String) : Prop :=
  ∃ s t reference, Dict.get? schemas name = some s ∧ ReflTransGen Schema.Holds s t ∧
    t.keywords.reference = some reference ∧ referredName? .schemas reference = some other

/-- References lead from no named schema back to itself. -/
def AcyclicReferences (schemas : Dict Schema) : Prop := ∀ name, ¬TransGen (Refers schemas) name name

/-- References lead from all names that wait to the name. -/
def Deeper (schemas : Dict Schema) (pending : List String) (name : String) : Prop :=
  ∀ waiting ∈ pending, TransGen (Refers schemas) waiting name

theorem AcyclicReferences.not_mem (hacyclic : AcyclicReferences schemas)
    (hname : Deeper schemas pending name) : name ∉ pending := fun hmem =>
  hacyclic name (hname name hmem)

/-- Every reference of the schema itself is resolved, and leads away from all names that wait. -/
def HeadDeeper (schemas : Dict Schema) (pending : List String) (fails : GenerationError → Prop)
    (s : Schema) : Prop :=
  ∀ reference, s.keywords.reference = some reference → Resolved schemas fails reference ∧
    ∀ name, referredName? .schemas reference = some name → Deeper schemas pending name

/-- What a named schema refers to is one level deeper. -/
theorem all_headDeeper {fails : GenerationError → Prop} (hall : AllResolved schemas fails)
    (hs : Dict.get? schemas name = some s) (hname : Deeper schemas pending name) :
    s.All (HeadDeeper schemas (name :: pending) fails) := by
  rw [Schema.all_iff_holds]
  intro t ht reference href
  have hresolved := Schema.all_iff_holds.1 (hall name s hs) t ht reference href
  refine ⟨hresolved, fun other hother => ?_⟩
  have hrefers : Refers schemas name other := ⟨s, t, reference, hs, ht, href, hother⟩
  exact List.forall_mem_cons.2 ⟨.single hrefers, fun waiting hwaiting =>
    (hname waiting hwaiting).tail hrefers⟩

/-! ## Shapes that show contributions -/

/-- A shape that is no alias. -/
theorem shapeShows_of_shows (hkind : Shows (Contributes schemas s) kind)
    (halias : ∀ member, kind ≠ .union [member]) : ShapeShows schemas pending b s kind := by
  intro h _ id hid heq
  rwa [aliasedKind_of_ne_alias heq hid halias]

theorem NamesShaped.ne_alias {R : Schema → TypeId → Prop} {names : List String}
    (hkind : NamesShaped R g s names kind) (member : TypeId) : kind ≠ .union [member] := by
  rintro rfl
  cases hkind with
  | single hname =>
    generalize hunion : TypeKind.union [member] = kind at hname
    cases hname with
    | scalar =>
      rw [scalarShape.eq_def] at hunion
      split at hunion <;> cases hunion
    | _ => cases hunion
  | several hlength hids =>
    rw [hids.length_eq, List.length_singleton] at hlength
    exact absurd hlength (by decide)

/-- The only alternative shows what it contributes, and several alternatives are no object. -/
theorem shapeShows_alternatives {ids : List TypeId} (hb : Consistent schemas pending b)
    (href : s.keywords.reference = none) (hparts : s.parts = []) (hne : s.alternatives ≠ [])
    (hids : List.Forall₂ (Upholds schemas pending b) s.alternatives ids) :
    ShapeShows schemas pending b s (.union ids) := by
  have hiff (o : Schema) : Contributes schemas s o ↔
      ∃ t, s.alternatives = [t] ∧ t.keywords.nullable = false ∧ Contributes schemas t o := by
    rw [contributes_own_iff href hparts, or_iff_right]
    exact fun ho => hne ho.1.alternatives
  generalize s.alternatives = alternatives at hids hne hiff
  cases hids with
  | nil => exact absurd rfl hne
  | cons hid hrest =>
    cases hrest with
    | nil =>
      intro h hh near hnear heq
      rw [aliasedKind_of_alias hh.sound hnear heq]
      refine (hid.holds.shows hb hh).congr fun o => ?_
      rw [hiff o]
      simp
    | cons =>
      refine shapeShows_of_shows (shows_of_ne_object (fun _ => TypeKind.noConfusion) fun o ho => ?_)
        fun member heq => by simp at heq
      obtain ⟨t, ht, -⟩ := (hiff o).1 ho
      simp at ht

/-- The shape of a schema that neither refers nor merges. -/
theorem OwnShaped.shapeShows (hkind : OwnShaped (Upholds schemas pending b) b.graph s kind)
    (hb : Consistent schemas pending b) (href : s.keywords.reference = none)
    (hparts : s.parts = []) :
    ShapeShows schemas pending b s kind := by
  have hnothing (hne : ¬s.SaysObject) (hnil : s.alternatives = []) (o : Schema) :
      ¬Contributes schemas s o := by
    rw [contributes_own_iff href hparts, hnil]
    rintro (ho | ⟨t, ht, -⟩)
    · exact hne ho.1
    · cases ht
  cases hkind with
  | alternatives hne hids => exact shapeShows_alternatives hb href hparts hne hids
  | constant hnil hconstant =>
    refine shapeShows_of_shows
      (shows_of_ne_object (fun _ => TypeKind.noConfusion) (hnothing ?_ hnil)) fun _ =>
        TypeKind.noConfusion
    intro hobject
    rw [hobject.constant] at hconstant
    cases hconstant
  | values hnil _ hvalues =>
    exact shapeShows_of_shows
      (shows_of_ne_object (fun _ => TypeKind.noConfusion)
        (hnothing (fun h => hvalues h.values) hnil))
      fun _ => TypeKind.noConfusion
  | names hnil hconstant hvalues hnames =>
    refine shapeShows_of_shows (hnames.shows fun o => ?_) hnames.ne_alias
    rw [contributes_own_iff href hparts, hnil, or_iff_left (by simp)]
    exact and_congr_left fun _ => ⟨fun h => h.names, fun h => ⟨hnil, hconstant, hvalues, h⟩⟩

/-- The shape of a schema that merges: what is merged has its shape by then. -/
theorem shapeShows_merged {ids : List TypeId} (hc : Consistent schemas pending c)
    (href : s.keywords.reference = none) (hparts : s.parts ≠ [])
    (hids : List.Forall₂ (Upholds schemas pending c) s.merged ids) :
    ShapeShows schemas pending c s (mergedKind c.graph ids) := by
  have hlt : ∀ id ∈ ids, id < c.graph.size :=
    forall₂_right hids fun _ _ _ hid => hid.represents.lt hc.placedNodes
  have hshows : List.Forall₂ (fun u id =>
      Shows (fun o => u.keywords.nullable = false ∧ Contributes schemas u o)
        (aliasedKind c.graph id c.graph.size)) s.merged ids :=
    hids.imp fun u id hid => hid.holds.shows hc (continues_self hc)
  have hiff (o : Schema) : (∃ u ∈ s.merged, u.keywords.nullable = false ∧ Contributes schemas u o) ↔
      Contributes schemas s o := (contributes_merged_iff href hparts).symm
  by_cases hobject : declaredFields c.graph ids = []
  · intro h hh id hid heq
    refine shows_of_ne_object (fun fields haliased => ?_) fun o ho => ?_
    · have hmerged :=
        mergedKind_eq_of_aliasedKind hc.grown.toSound hh.sound hh.grows hlt hid heq haliased
      exact ((mergedKind_eq_object_iff hlt fields).1 hmerged).1 hobject
    · refine (declaredFields_ne_nil_iff hshows).2 ⟨o, ?_⟩ hobject
      exact (hiff o).2 ho
  · have hmerged := (mergedKind_eq_object_iff hlt _).2 ⟨hobject, rfl⟩
    rw [hmerged]
    exact shapeShows_of_shows ((shows_merged hshows hobject).congr hiff) fun _ =>
      TypeKind.noConfusion

/-- The reference leads to the node of a named schema that has its shape. -/
def LeadsSettled (pending : List String) (b : Building) (reference : String) (id : TypeId) : Prop :=
  ∃ name, referredName? .schemas reference = some name ∧ Dict.get? b.placed name = some id ∧
    name ∉ pending

theorem LeadsSettled.leadsTo (hid : LeadsSettled pending b reference id) :
    LeadsTo b reference id := by
  obtain ⟨name, hname, hplaced, -⟩ := hid
  exact ⟨name, hname, hplaced⟩

/-- The node that a reference leads to shows what contributes to the reference. -/
theorem LeadsSettled.stillShows (hid : LeadsSettled pending b reference id)
    (hb : Consistent schemas pending b) (hall : AllUpheld schemas pending b)
    (href : s.keywords.reference = some reference) : StillShows schemas pending b s id := by
  obtain ⟨name, hname, hplaced, hsettled⟩ := hid
  obtain ⟨t, ht⟩ := hb.known name id hplaced
  obtain ⟨inner, hinner⟩ := hall name id t hplaced hsettled ht
  intro h hh
  refine (hinner.node_shows (hb.settled_of_placed hplaced hsettled) hh).congr fun o => ?_
  have htarget (t' : Schema) : Target schemas reference t' ↔ t' = t := by
    simp [Target, hname, ht, eq_comm]
  rw [contributes_reference_iff href]
  simp [htarget]

/-- A reference is an alias. -/
theorem shapeShows_reference (hid : LeadsSettled pending b reference id)
    (hb : Consistent schemas pending b) (hall : AllUpheld schemas pending b)
    (href : s.keywords.reference = some reference) :
    ShapeShows schemas pending b s (.union [id]) := by
  intro h hh near hnear heq
  rw [aliasedKind_of_alias hh.sound hnear heq]
  exact hid.stillShows hb hall href h hh

/-! ## Nodes of schemas -/

variable {stage : Stage} {follow : String → Build TypeId} {shape : Build TypeKind}

/-- Nodes that show contributions, at any depth, go on doing so. -/
theorem watched_upholds (stage : Stage) : Watched stage (AllUpheld stage.schemas stage.pending)
    (Upholds stage.schemas stage.pending) where
  keeps hb hbc hplaced hall := by
    refine hall.onward hb.consistent (hbc.onward hb.consistent) fun name id hid hname => ⟨?_, hname⟩
    rwa [hplaced] at hid
  later hb hbc hid := hid.onward (hbc.onward hb.consistent) hb.consistent.placedNodes
  lt hb hid := hid.represents.lt hb.consistent.placedNodes

/-- Following the reference leads to a named schema that has its shape. -/
def FollowedUpheld (stage : Stage) (follow : String → Build TypeId) (reference : String) : Prop :=
  ∀ b, Ready stage b → AllUpheld stage.schemas stage.pending b →
    Goes stage (follow reference) b fun id c => AllUpheld stage.schemas stage.pending c ∧
      LeadsSettled stage.pending c reference id

/-- The shape that is made is right for the schema and shows contributions. -/
def ShapeUpheld (stage : Stage) (s : Schema) (shape : Build TypeKind) : Prop :=
  ∀ b, Ready stage b → AllUpheld stage.schemas stage.pending b →
    Goes stage shape b fun kind c => AllUpheld stage.schemas stage.pending c ∧
      ShapeShows stage.schemas stage.pending c s kind ∧
        Shaped (Upholds stage.schemas stage.pending c) c s kind ∧ Addable c.graph kind

/-- The node that is made shows contributions, at any depth. -/
abbrev PlacesUpheld (stage : Stage) (follow : String → Build TypeId) (s : Schema) : Prop :=
  PlacesAs stage (AllUpheld stage.schemas stage.pending)
    (Upholds stage.schemas stage.pending) follow s

/-- Every reference of the schema itself can be followed. -/
def HeadUpheld (stage : Stage) (follow : String → Build TypeId) (s : Schema) : Prop :=
  ∀ reference, s.keywords.reference = some reference → FollowedUpheld stage follow reference

theorem placeSchema_upholds (hfollow : HeadUpheld stage follow s)
    (hshape : ShapeUpheld stage s (shapeOf follow s)) : PlacesUpheld stage follow s := by
  have hw := watched_upholds stage
  intro b hb hall
  rw [placeSchema, placeNode]
  cases href : s.keywords.reference with
  | some reference =>
    refine goes_bind hb (hfollow reference href b hb hall) fun inner c hc _ hfollowed => ?_
    obtain ⟨hall, hinner⟩ := hfollowed
    have hlt := hc.consistent.placedNodes _ _ hinner.leadsTo.choose_spec.2
    refine (admitNull_goes hc hlt s.keywords.nullable).mono fun id d hcd hadmitted => ?_
    obtain ⟨hplaced, hid⟩ := hadmitted
    refine ⟨hw.keeps hc hcd hplaced hall, Stands.representsWith
      (.reference href (hinner.leadsTo.later hcd.later) hid) ?_ hcd.consistent.placedNodes⟩
    exact ⟨inner, hid, hcd.extended.lt hlt,
      (hinner.stillShows hc.consistent hall href).onward (hcd.onward hc.consistent)⟩
  | none =>
    refine goes_bind hb (hshape b hb hall) fun kind c hc _ hshaped => ?_
    obtain ⟨hall, hshows, hkind, hadd⟩ := hshaped
    refine add_described_goes hc hadd fun inner d hd hcd hplaced hinner => ?_
    have hall := hw.keeps hc hcd hplaced hall
    have hinnerShows : StillShows stage.schemas stage.pending d s inner :=
      (hshows.onward (hcd.onward hc.consistent)).stillShows
        (hd.consistent.settled_of_anonymous hinner) hinner.kind
    refine (admitNull_goes hd hinner.lt s.keywords.nullable).mono fun id e hde hadmitted => ?_
    obtain ⟨hplaced, hid⟩ := hadmitted
    have honward := (hcd.trans hde).onward hc.consistent
    refine ⟨hw.keeps hd hde hplaced hall, Stands.representsWith
      (.shape href (hde.later.graph.isAnonymous hinner) ?_ hid) ?_ hde.consistent.placedNodes⟩
    · exact hkind.mono (fun s id h => h.onward honward hc.consistent.placedNodes) honward.later
    · exact ⟨inner, hid, hde.extended.lt hinner.lt, hinnerShows.onward (hde.onward hd.consistent)⟩

/-- The shape of a schema whose references can be followed, by induction on the schema. -/
theorem shapeOf_upholds (hs : s.All (HeadUpheld stage follow)) :
    ShapeUpheld stage s (shapeOf follow s) := by
  have hw := watched_upholds stage
  induction hs with
  | @intro s here hproperties hitems hadditional halternatives hparts ihproperties ihitems
      ihadditional ihalternatives ihparts =>
    intro b hb hall
    have hinside : PlacesInside stage (AllUpheld stage.schemas stage.pending)
        (Upholds stage.schemas stage.pending) follow s := {
      properties := fun entry h =>
        placeSchema_upholds (hproperties entry h).here (ihproperties entry h)
      items := fun item h => placeSchema_upholds (hitems item h).here (ihitems item h)
      additional := fun value h =>
        placeSchema_upholds (hadditional value h).here (ihadditional value h)
      alternatives := fun choice h =>
        placeSchema_upholds (halternatives choice h).here (ihalternatives choice h) }
    cases href : s.keywords.reference with
    | some reference =>
      rw [shapeOf_reference href]
      refine goes_bind hb (here reference href b hb hall) fun target c hc _ ⟨hall, htarget⟩ => ?_
      refine goes_pure hc ⟨hall, shapeShows_reference htarget hc.consistent hall href,
        .reference href htarget.leadsTo, addable_union (List.cons_ne_nil _ _) ?_⟩
      intro member hmember
      rw [List.mem_singleton.1 hmember]
      exact hc.consistent.placedNodes _ _ htarget.leadsTo.choose_spec.2
    | none =>
      by_cases hne : s.parts = []
      · rw [shapeOf_own href hne]
        exact (ownShape_goes hw hinside hb hall).mono fun kind c hbc ⟨hall, hkind, hadd⟩ =>
          ⟨hall, hkind.shapeShows hbc.consistent href hne, .own href hne hkind, hadd⟩
      · have halone : PlacesUpheld stage follow s.alone := by
          have hhead : HeadUpheld stage follow s.alone := here
          refine placeSchema_upholds hhead fun c hc hall => ?_
          have hinside' : PlacesInside stage (AllUpheld stage.schemas stage.pending)
              (Upholds stage.schemas stage.pending) follow s.alone :=
            ⟨hinside.properties, hinside.items, hinside.additional, hinside.alternatives⟩
          rw [shapeOf_own (s := s.alone) href rfl]
          exact (ownShape_goes hw hinside' hc hall).mono fun kind d hcd ⟨hall, hkind, hadd⟩ =>
            ⟨hall, hkind.shapeShows (s := s.alone) hcd.consistent href rfl,
              .own href rfl hkind, hadd⟩
        refine (merging_goes hw
          (fun part h => placeSchema_upholds (hparts part h).here (ihparts part h)) halone href hne
          hb hall).mono fun kind c hbc ⟨hall, ids, hkind, hids⟩ => ?_
        subst hkind
        have hc := hbc.consistent
        have hlt := forall₂_right hids fun _ _ _ hid => hid.represents.lt hc.placedNodes
        exact ⟨hall, shapeShows_merged hc href hne hids,
          .merged href hne hc.grown.toSound (.refl _) hlt hids,
          addable_mergedKind hc.grown.toSound hc.offers hlt⟩

/-! ## Named schemas -/

/-- A named schema that has got its shape shows contributions. -/
theorem watchedFill_upheld (hs : Dict.get? schemas name = some s) (hname : name ∉ pending) :
    WatchedFill schemas pending name s (AllUpheld schemas (name :: pending))
      (fun c kind => ShapeShows schemas (name :: pending) c s kind ∧
        Shaped (Upholds schemas (name :: pending) c) c s kind) (AllUpheld schemas pending) where
  keeps := by
    intro c d kind hc hcd hplaced hall ⟨hshows, hkind⟩
    have honward := hcd.onward hc
    refine ⟨hall.onward hc honward fun other id hid hother => ⟨?_, hother⟩, hshows.onward honward,
      hkind.mono (fun s id h => h.onward honward hc.placedNodes) honward.later⟩
    rwa [hplaced] at hid
  fill := by
    intro d id kind filled hd hid hall ⟨hshows, hkind⟩ hfilled
    have honward := onward_filled hd hid filled s.keywords.description
    have hkind' := hkind.mono (fun s id h => h.onward honward hd.placedNodes) honward.later
    have hself := kind_filled_self (hd.placedNodes name id hid) filled s.keywords.description
    intro other target u htarget hother hu
    by_cases heq : other = name
    · subst heq
      obtain rfl : id = target := Option.some.inj (hid.symm.trans htarget)
      obtain rfl : s = u := Option.some.inj (hs.symm.trans hu)
      generalize hnullable : s.keywords.nullable = nullable at hfilled
      cases hfilled with
      | plain =>
        have hsettled : Settled pending (withShape d id kind s.keywords.description) id := by
          refine ⟨honward.later.graph.lt (hd.placedNodes other id hid),
            fun waiting hwaiting h => ?_⟩
          rw [hd.injective other waiting id hid h] at hname
          exact hname hwaiting
        refine ⟨id, by rw [hnullable]; exact .plain, hsettled, by rwa [hself], ?_⟩
        exact (hshows.onward honward).stillShows hsettled hself
      | @union inner null hinner hnull =>
        have hsettled := hd.settled_of_anonymous hinner
        have hinner' := honward.later.graph.isAnonymous hinner
        refine ⟨inner, by rw [hnullable]; exact .union hself,
          honward.settled inner hsettled, ?_, ?_⟩
        · rwa [hinner'.kind]
        · exact (hshows.onward honward).stillShows (honward.settled inner hsettled) hinner'.kind
    · have hother' : other ∉ name :: pending := by
        rw [List.mem_cons, not_or]
        exact ⟨heq, hother⟩
      obtain ⟨inner, hinner⟩ := hall other target u htarget hother' hu
      exact ⟨inner, hinner.onward (hd.settled_of_placed htarget hother') honward hd.placedNodes⟩

theorem followTo_upholds {visit : String → Build TypeId}
    (hacyclic : AcyclicReferences stage.schemas)
    (hvisit : ∀ name, Dict.contains stage.schemas name = true →
      Deeper stage.schemas stage.pending name → ∀ b, Ready stage b →
        AllUpheld stage.schemas stage.pending b →
          Goes stage (visit name) b fun id c => AllUpheld stage.schemas stage.pending c ∧
            Dict.get? c.placed name = some id)
    (hresolved : Resolved stage.schemas stage.fails reference)
    (hdeeper : ∀ name, referredName? .schemas reference = some name →
      Deeper stage.schemas stage.pending name) :
    FollowedUpheld stage (followTo stage.schemas visit) reference := by
  refine fun b hb hall => followTo_goes (fun name hname hcontains => ?_) hresolved
  have hapart := hacyclic.not_mem (hdeeper name hname)
  exact (hvisit name hcontains (hdeeper name hname) b hb hall).mono fun id c _ ⟨hall, hid⟩ =>
    ⟨hall, name, hname, hid, hapart⟩

/-- The node of a named schema, by induction on the steps that are left. -/
theorem component_upholds {fails : GenerationError → Prop} (hall : AllResolved schemas fails)
    (hacyclic : AcyclicReferences schemas) (steps : Nat) :
    ∀ {pending : List String} {name : String}, Dict.contains schemas name = true →
      Deeper schemas pending name → ∀ b, Ready ⟨schemas, pending, steps, fails⟩ b →
        AllUpheld schemas pending b →
          Goes ⟨schemas, pending, steps, fails⟩ (component schemas steps name) b fun id c =>
            AllUpheld schemas pending c ∧ Dict.get? c.placed name = some id := by
  induction steps with
  | zero =>
    intro pending name hcontains _ b hb hupheld
    obtain ⟨s, hs⟩ := Option.isSome_iff_exists.1 hcontains
    refine placedOr_goes hb (fun _ hid => ⟨hupheld, hid⟩) fun hnew => ?_
    have hroom := Nat.lt_of_lt_of_le (unplaced_reserved hs hnew) hb.room
    exact absurd hroom (Nat.not_lt_zero _)
  | succ steps ih =>
    intro pending name hcontains hname b hb hupheld
    obtain ⟨s, hs⟩ := Option.isSome_iff_exists.1 hcontains
    refine placedOr_goes hb (fun _ hid => ⟨hupheld, hid⟩) fun hnew => ?_
    rw [hs]
    have hshape : ShapeUpheld ⟨schemas, name :: pending, steps, fails⟩ s
        (shapeOf (followTo schemas (component schemas steps)) s) := by
      refine shapeOf_upholds
        ((all_headDeeper hall hs hname).mono fun inner hinner reference href => ?_)
      obtain ⟨hresolved, hdeeper⟩ := hinner reference href
      exact followTo_upholds hacyclic (fun _ => ih) hresolved hdeeper
    have hreserved : AllUpheld schemas (name :: pending) (withReserved b name) :=
      hupheld.onward hb.consistent (onward_reserved hnew) fun other id hid hother => by
        rw [List.mem_cons, not_or] at hother
        rw [get?_reserved_of_ne hother.1] at hid
        exact ⟨hid, hother.2⟩
    refine makeComponent_goes (watchedFill_upheld hs (hacyclic.not_mem hname)) hs hnew hreserved
      (fun c hc hall => ?_) hb
    refine (hshape c hc hall).mono fun kind d hcd ⟨hall, hshows, hkind, hadd⟩ =>
      ⟨hall, ⟨hshows, hkind⟩, ?_, hadd⟩
    exact hkind.mono (fun s id h => h.represents) (.refl d)

/-! ## Mapping schemas -/

variable {fails : GenerationError → Prop}

theorem mapSchema_upholds (hall : AllResolved schemas fails) (hacyclic : AcyclicReferences schemas)
    (hs : s.All (HeadResolved schemas fails)) (hb : Consistent schemas [] b)
    (hupheld : AllUpheld schemas [] b) :
    Goes ⟨schemas, [], schemas.length, fails⟩ (mapSchema schemas s) b fun id c =>
      AllUpheld schemas [] c ∧ Upholds schemas [] c s id := by
  have hhead : s.All (HeadUpheld ⟨schemas, [], schemas.length, fails⟩ (mapReference schemas)) :=
    hs.mono fun _ hinner reference href =>
      followTo_upholds hacyclic (fun _ => component_upholds hall hacyclic schemas.length)
        (hinner reference href) fun _ _ => List.forall_mem_nil _
  exact placeSchema_upholds hhead.here (shapeOf_upholds hhead) b (ready_of_consistent hb) hupheld

theorem mapComponents_upholds (hall : AllResolved schemas fails)
    (hacyclic : AcyclicReferences schemas) (hb : Consistent schemas [] b)
    (hupheld : AllUpheld schemas [] b) :
    Goes ⟨schemas, [], schemas.length, fails⟩ (mapComponents schemas) b fun _ c =>
      AllUpheld schemas [] c := by
  rw [mapComponents]
  have hnames : ∀ name ∈ Dict.keys schemas, Dict.contains schemas name = true :=
    fun _ => Dict.contains_of_mem_keys
  generalize Dict.keys schemas = names at hnames ⊢
  have hready : Ready ⟨schemas, [], schemas.length, fails⟩ b := ready_of_consistent hb
  clear hb
  induction names generalizing b with
  | nil => exact goes_pure hready hupheld
  | cons name names ih =>
    obtain ⟨hname, hnames⟩ := List.forall_mem_cons.1 hnames
    have hfirst : Goes ⟨schemas, [], schemas.length, fails⟩
        (discard (component schemas schemas.length name)) b fun _ c => AllUpheld schemas [] c :=
      goes_bind (S := fun _ c => AllUpheld schemas [] c) hready (component_upholds hall hacyclic
        schemas.length hname (List.forall_mem_nil _) b hready hupheld) fun id c hc _ h =>
          goes_pure hc h.1
    exact goes_bind hready hfirst fun _ c hc _ hupheld => ih hupheld hnames hc

/-- Whatever is mapped, named schemas that have got a node show contributions. -/
theorem Leads.allUpheld (hbc : Leads schemas b c) (hacyclic : AcyclicReferences schemas)
    (hb : Consistent schemas [] b) (hupheld : AllUpheld schemas [] b) : AllUpheld schemas [] c := by
  induction hbc with
  | refl => exact hupheld
  | components hbd h ih =>
    have hd := (hbd.advances hb).consistent
    exact ((mapComponents_upholds allResolved_of_true hacyclic hd ih).of_ok h).2
  | @schema _ _ s _ hbd h ih =>
    have hd := (hbd.advances hb).consistent
    have hs : s.All (HeadResolved schemas fun _ => True) :=
      Schema.all_of_forall (fun _ _ _ => .inr trivial) s
    exact ((mapSchema_upholds allResolved_of_true hacyclic hs hd ih).of_ok h).2.1

/-! ## Which fields are required -/

/-- A schema that contributes both declares the name and lists it as required. -/
def Heeded (schemas : Dict Schema) (s : Schema) (name : String) : Prop :=
  ∃ o, Contributes schemas s o ∧ o.Declares name ∧ name ∈ o.keywords.required

theorem Heeded.listed (h : Heeded schemas s name) : Listed schemas s name := by
  obtain ⟨o, ho, -, hname⟩ := h
  exact ho.listed hname

/-- The fields are those of the contributions to the schema, and tell which of them are required. -/
structure MergedFields (schemas : Dict Schema) (s : Schema) (fields : List Field) : Prop where
  /-- Each name is there once. -/
  nodup : (fields.map Field.name).Nodup
  /-- The names are those that contributions declare. -/
  declared : ∀ name, name ∈ fields.map Field.name ↔ ∃ o, Contributes schemas s o ∧ o.Declares name
  /-- Those fields are required that a contribution both declares and lists. -/
  required : ∀ field ∈ fields, field.required = true ↔ Heeded schemas s field.name
  /-- So just if a list of a name stands beside a declaration of it, the field is required if and
  only if it is listed. -/
  listed : ∀ field ∈ fields, (field.required = true ↔ Listed schemas s field.name) ↔
    (Listed schemas s field.name → Heeded schemas s field.name)

/-- If the schema merges others and something contributes to it, the node is an object with the
fields of all contributions. -/
def ShowsMerged (schemas : Dict Schema) (b : Building) (s : Schema) (inner : TypeId) : Prop :=
  s.keywords.reference = none → s.parts ≠ [] → (∃ o, Contributes schemas s o) →
    ∃ fields, b.graph.kind inner = .object fields ∧ MergedFields schemas s fields

/-- The same of the node that stands for the schema, null left aside. -/
def StandsMerged (schemas : Dict Schema) (b : Building) (s : Schema) (id : TypeId) : Prop :=
  ∃ inner, WithNull b.graph inner s.keywords.nullable id ∧ ShowsMerged schemas b s inner

/-- The same of the node of a named schema and of the nodes inside, at any depth. -/
def NamedMerged (schemas : Dict Schema) (b : Building) (s : Schema) (id : TypeId) : Prop :=
  ∃ inner, NullInside b.graph inner s.keywords.nullable id ∧ ShowsMerged schemas b s inner ∧
    Shaped (RepresentsWith (StandsMerged schemas b) b) b s (b.graph.kind inner)

/-- A merged shape that shows contributions is an object with the fields of all of them. -/
theorem StillShows.showsMerged (hid : StillShows schemas [] b s id) (hb : Consistent schemas [] b)
    (hlt : id < b.graph.size) (hshaped : Shaped (Upholds schemas [] b) b s (b.graph.kind id)) :
    ShowsMerged schemas b s id := by
  intro href hparts hcontributes
  have hshows := hid b.graph (continues_self hb)
  obtain ⟨fields, haliased⟩ := hshows.object.2 hcontributes
  rw [haliased] at hshows
  have hsound := hb.grown.toSound
  generalize hkind : b.graph.kind id = kind at hshaped
  cases hshaped with
  | reference href' =>
    rw [href] at href'
    cases href'
  | own _ hparts' => exact absurd hparts' hparts
  | @merged g ids _ _ hg hgrows hids _ =>
    have hobject := mergedKind_eq_of_aliasedKind hg hsound hgrows hids hlt hkind haliased
    obtain ⟨-, hfields⟩ := (mergedKind_eq_object_iff hids fields).1 hobject
    have hnodup : (fields.map Field.name).Nodup := hfields ▸ nodup_overlayAll _
    obtain ⟨-, hdeclared, hrequired⟩ := hshows.of_object
    have hheeded : ∀ field ∈ fields, field.required = true ↔ Heeded schemas s field.name :=
      fun field hfield => (required_iff_requires hnodup hfield).trans (hrequired field.name)
    refine ⟨fields, hobject, hnodup, hdeclared, hheeded, fun field hfield => ?_⟩
    rw [hheeded field hfield]
    exact ⟨fun h => h.2, fun h => ⟨Heeded.listed, h⟩⟩

theorem Upholds.standsMerged (hid : Upholds schemas [] b s id) (hb : Consistent schemas [] b) :
    StandsMerged schemas b s id := by
  obtain ⟨inner, hnull, hlt, hinner⟩ := hid.holds
  refine ⟨inner, hnull, fun href hparts => ?_⟩
  cases hid.stands hb.placedNodes with
  | reference href' =>
    rw [href] at href'
    cases href'
  | shape _ hanonymous hshaped hnull' =>
    rw [← hanonymous.kind, ← hnull.unique hnull'] at hshaped
    exact hinner.showsMerged hb hlt hshaped href hparts

theorem Upholds.representsMerged (hid : Upholds schemas [] b s id) (hb : Consistent schemas [] b) :
    RepresentsWith (StandsMerged schemas b) b s id :=
  RepresentsWith.imp hid hb.placedNodes fun _ _ h => Upholds.standsMerged h hb

/-- **Which fields of a merged object are required.**  Where all references name schemas and lead
from no named schema back to itself, whatever has been mapped, and in whatever order: a schema that
merges others, to which something contributes (such as a part that is an object), has the fields of
all contributions, each name once, and requires those that a contribution both declares and lists.
A list of required names that stands apart from the declarations is not heeded.  This is so for
named schemas, for any schema that is mapped beside them, which always succeeds, and for all schemas
inside, at any depth. -/
theorem merged_required (hall : AllResolved schemas fun _ => False)
    (hacyclic : AcyclicReferences schemas) (hd : Leads schemas Building.empty d) :
    (∀ name id s, Dict.get? d.placed name = some id → Dict.get? schemas name = some s →
        NamedMerged schemas d s id) ∧
      ∀ s, s.All (HeadResolved schemas fun _ => False) →
        ∃ id c, mapSchema schemas s d = .ok (id, c) ∧
          RepresentsWith (StandsMerged schemas c) c s id := by
  have hempty := consistent_empty schemas
  have hconsistent := (hd.advances hempty).consistent
  have hupheld : AllUpheld schemas [] d :=
    hd.allUpheld hacyclic hempty fun _ _ _ hid => nomatch hid
  refine ⟨fun name id s hid hs => ?_, fun s hs => ?_⟩
  · obtain ⟨inner, hnull, hsettled, hshaped, hshows⟩ := hupheld name id s hid List.not_mem_nil hs
    refine ⟨inner, hnull, hshows.showsMerged hconsistent hsettled.lt hshaped, ?_⟩
    exact hshaped.mono (fun s id h => Upholds.representsMerged h hconsistent) (.refl d)
  · obtain ⟨id, c, hmap, hadvances, -, hid⟩ :=
      (mapSchema_upholds hall hacyclic hs hconsistent hupheld).exists_ok
    exact ⟨id, c, hmap, hid.representsMerged hadvances.consistent⟩

/-! ## An example -/

/-- Books have a title, which is not required. -/
def titledBook : Schema :=
  { Schema.ofKeywords { types := some ["object"] } with
    properties := [("title", .ofKeywords { types := some ["string"] })] }

/-- Books alone. -/
def titledBooks : Dict Schema := [("Book", titledBook)]

/-- Books whose title is required. -/
def titled : Schema :=
  { Schema.ofKeywords { } with
    parts := [.ofKeywords { reference := some "#/components/schemas/Book" },
      .ofKeywords { required := ["title"] }] }

/-- The title declared once more, with a list that requires it. -/
def requiredTitle : Schema :=
  { titledBook with keywords := { titledBook.keywords with required := ["title"] } }

/-- Books whose title is required where it is declared once more. -/
def retitled : Schema :=
  { Schema.ofKeywords { } with
    parts := [.ofKeywords { reference := some "#/components/schemas/Book" }, requiredTitle] }

theorem referredName?_book : referredName? .schemas "#/components/schemas/Book" = some "Book" := by
  decide +kernel

theorem target_titledBook : Target titledBooks "#/components/schemas/Book" titledBook :=
  ⟨"Book", referredName?_book, rfl⟩

theorem contributes_titledBook : Contributes titledBooks
    (.ofKeywords { reference := some "#/components/schemas/Book" }) titledBook :=
  .reference rfl target_titledBook rfl (.own rfl rfl ⟨rfl, rfl, rfl, rfl⟩ rfl)

theorem contributes_requiredTitle : Contributes titledBooks retitled requiredTitle :=
  .merged rfl (List.cons_ne_nil _ _)
    (mem_merged.2 (.inl (List.mem_cons_of_mem _ List.mem_cons_self))) rfl
    (.own rfl rfl ⟨rfl, rfl, rfl, rfl⟩ rfl)

theorem all_titledBook : titledBook.All fun s => s.keywords.reference = none := by
  refine .intro rfl (fun entry hentry => ?_) (fun _ h => nomatch h) (fun _ h => nomatch h)
    (fun _ h => absurd h List.not_mem_nil) fun _ h => absurd h List.not_mem_nil
  rw [List.mem_singleton.1 hentry]
  exact Schema.all_ofKeywords rfl

theorem eq_titledBook (hs : Dict.get? titledBooks name = some s) : s = titledBook := by
  rw [titledBooks, Dict.get?_cons] at hs
  split at hs
  · exact (Option.some.inj hs).symm
  · cases hs

theorem allResolved_titledBooks : AllResolved titledBooks fun _ => False := by
  intro name s hs
  rw [eq_titledBook hs]
  refine all_titledBook.mono fun s hnone reference href => ?_
  rw [hnone] at href
  cases href

theorem acyclicReferences_titledBooks : AcyclicReferences titledBooks := by
  intro name hcycle
  obtain ⟨other, ⟨s, t, reference, hs, ht, href, -⟩, -⟩ := TransGen.head'_iff.1 hcycle
  rw [eq_titledBook hs] at ht
  rw [Schema.all_iff_holds.1 all_titledBook t ht] at href
  cases href

/-- A reference to books is resolved. -/
theorem all_book : (Schema.ofKeywords { reference := some "#/components/schemas/Book" }).All
    (HeadResolved titledBooks fun _ => False) := by
  refine Schema.all_ofKeywords fun reference href => .inl ⟨"Book", ?_, rfl⟩
  cases href
  exact referredName?_book

/-- So are all references of schemas that merge books with others of the kind. -/
theorem all_merging {part : Schema} (hpart : part.All (HeadResolved titledBooks fun _ => False)) :
    ({ Schema.ofKeywords { } with
        parts := [.ofKeywords { reference := some "#/components/schemas/Book" }, part] } :
      Schema).All (HeadResolved titledBooks fun _ => False) := by
  refine .intro (fun _ h => nomatch h) (fun _ h => absurd h List.not_mem_nil) (fun _ h => nomatch h)
    (fun _ h => nomatch h) (fun _ h => absurd h List.not_mem_nil) ?_
  exact List.forall_mem_cons.2 ⟨all_book, List.forall_mem_singleton.2 hpart⟩

theorem all_retitled : retitled.All (HeadResolved titledBooks fun _ => False) := by
  refine all_merging (.intro (fun _ h => nomatch h) (fun entry hentry => ?_) (fun _ h => nomatch h)
    (fun _ h => nomatch h)
    (fun _ h => absurd h List.not_mem_nil) fun _ h => absurd h List.not_mem_nil)
  rw [List.mem_singleton.1 hentry]
  exact Schema.all_ofKeywords fun _ h => nomatch h

/-- In books with a title, it is required if it is listed where it is declared. -/
theorem merged_required_retitled :
    AllResolved titledBooks (fun _ => False) ∧ AcyclicReferences titledBooks ∧
      Leads titledBooks Building.empty Building.empty ∧
        ∃ id c inner fields, mapSchema titledBooks retitled Building.empty = .ok (id, c) ∧
          WithNull c.graph inner false id ∧ c.graph.kind inner = .object fields ∧
            ∃ field ∈ fields, field.name = "title" ∧ field.required = true := by
  refine ⟨allResolved_titledBooks, acyclicReferences_titledBooks, .refl, ?_⟩
  obtain ⟨id, c, hmap, hid⟩ :=
    (merged_required allResolved_titledBooks acyclicReferences_titledBooks .refl).2 retitled
      all_retitled
  obtain ⟨inner, hnull, hmerged⟩ := hid.holds
  obtain ⟨fields, hkind, hfields⟩ :=
    hmerged rfl (List.cons_ne_nil _ _) ⟨_, contributes_requiredTitle⟩
  obtain ⟨field, hfield, hname⟩ :=
    List.mem_map.1 ((hfields.declared "title").2 ⟨_, contributes_requiredTitle, List.mem_cons_self⟩)
  refine ⟨id, c, inner, fields, hmap, hnull, hkind, field, hfield, hname, ?_⟩
  rw [hfields.required field hfield, hname]
  exact ⟨_, contributes_requiredTitle, List.mem_cons_self, List.mem_cons_self⟩

/-- The title is not required if it is listed apart from its declaration. -/
theorem not_required_titled :
    AllResolved titledBooks (fun _ => False) ∧ AcyclicReferences titledBooks ∧
      titled.All (HeadResolved titledBooks fun _ => False) ∧ titled.keywords.reference = none ∧
        (∃ part ∈ titled.parts, part.keywords.nullable = false ∧
          ∃ o, Contributes titledBooks part o) ∧
          ∃ c fields, mapSchema titledBooks titled Building.empty = .ok (3, c) ∧
            c.graph.kind 3 = .object fields ∧
              ¬∀ field ∈ fields, field.required = true ↔ Listed titledBooks titled field.name := by
  refine ⟨allResolved_titledBooks, acyclicReferences_titledBooks,
    all_merging (Schema.all_ofKeywords fun _ h => nomatch h), rfl,
    ⟨_, List.mem_cons_self, rfl, titledBook, contributes_titledBook⟩,
    _, [⟨"title", 1, false, none⟩], rfl, rfl, fun h => ?_⟩
  have hlisted : Listed titledBooks titled "title" :=
    .part (t := .ofKeywords { required := ["title"] }) rfl
      (List.mem_cons_of_mem _ List.mem_cons_self) (.own rfl List.mem_cons_self)
  exact Bool.false_ne_true ((h _ List.mem_cons_self).2 hlisted)

end TypedClient.OpenApi
