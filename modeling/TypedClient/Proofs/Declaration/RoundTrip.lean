import TypedClient.Proofs.Declaration.Correspondence
import TypedClient.Proofs.Emit.Tidy
import TypedClient.Proofs.Types.Unbounded

/-!
# Declarations of a graph read back

The text that declares the named types of a graph is read back as an equivalent graph
(`parseDeclarations_equivalent`).  What the graph needs for that is said by `Canonical`, node by
node: the text has no way to tell an anonymous union of one member from the member, or an
enumeration without values from anything.

* `lexes_declaration` says that the lines of a declaration, comments included, have its tokens;
* `exists_reread_statement` says that the declarations of a graph can be read if its numbers can;
* `parseDeclarations_flatMap` puts texts with the tokens of one declaration each together;
* `covers_of_recovers` and `covers_of_recovers_flip` compare the two graphs in both directions.
-/

set_option autoImplicit false

namespace TypedClient.Declaration

open TypedClient.Text TypedClient.Types

variable {g h : TypeGraph} {nodes : TypeId → Prop} {known : String → Prop} {id : TypeId}

/-! ## The text of declarations -/

/-- The lines of a declaration, comments included, have its tokens. -/
theorem lexes_declaration {style : Style} {s : Statement} (hs : statement? g style id = some s)
    (h : s.Legible known) {lines : List String} (hlines : declaration? g style id = some lines) :
    Lexes (lineChars lines) (s.reread?.map Statement.tokens) := by
  have hcomment (text : Option String) : Lexes (lineChars (docComment text "")) (some []) :=
    lexes_docComment text (by simp)
  rw [declaration?, hs, Option.map_some] at hlines
  cases hlines
  rw [lineChars_append, ← joined_nil (s.reread?.map Statement.tokens)]
  refine (hcomment _).append ?_
  obtain ⟨name, hname, rfl⟩ := Option.map_eq_some_iff.1 hs
  cases hkind : g.kind id with
  | object fields =>
    rw [hkind] at h
    have hnotes : ∀ note ∈ fields.map fun field => docComment field.description "  ",
        Lexes (lineChars note) (some []) := by
      intro note hnote
      obtain ⟨field, -, rfl⟩ := List.mem_map.1 hnote
      exact lexes_docComment _ (by simp)
    have hall := lexes_commentedInterface (by simp [membersOf]) hnotes h
    rwa [List.zip_map_left, List.flatMap_map] at hall
  | _ =>
    rw [hkind] at h
    exact lexes_statementLines h

/-- The tokens of several pieces, one behind the other. -/
def joinedAll (tss : List (Option (List Token))) : Option (List Token) := tss.foldr joined (some [])

/-- The lines of several pieces have the tokens of each. -/
theorem lexes_flatMap {α : Type} {f : α → List String} {t : α → Option (List Token)} {xs : List α}
    (h : ∀ x ∈ xs, Lexes (lineChars (f x)) (t x)) :
    Lexes (lineChars (xs.flatMap f)) (joinedAll (xs.map t)) := by
  induction xs with
  | nil => exact lexes_nil
  | cons x xs ih =>
    rw [List.flatMap_cons, lineChars_append]
    exact (h x List.mem_cons_self).append (ih fun y hy => h y (List.mem_cons_of_mem _ hy))

theorem joinedAll_map_some {α : Type} (t : α → List Token) (xs : List α) :
    joinedAll (xs.map fun x => some (t x)) = some (xs.flatMap t) := by
  induction xs with
  | nil => rfl
  | cons x xs ih =>
    rw [joinedAll] at ih ⊢
    rw [List.map_cons, List.foldr_cons, ih, joined_some, List.flatMap_cons]

/-- A text that has the tokens of declarations is read as these. -/
theorem parseDeclarations_of_tokens {text : String} {chunks : List (Tokens × Option Statement)}
    (htokens : tokens? text.toList = some (chunks.flatMap Prod.fst))
    (hchunks : ∀ chunk ∈ chunks, ReadsStatement chunk.1 chunk.2) :
    parseDeclarations text = .ok (graphOf (chunks.filterMap Prod.snd)) := by
  have hread := toOption_readDeclarations text
  rw [htokens, Option.bind_some, readStatements_chunks hchunks] at hread
  rw [parseDeclarations]
  cases hdeclarations : readDeclarations text with
  | error e => rw [hdeclarations] at hread; cases hread
  | ok statements => rw [hdeclarations] at hread; cases hread; rfl

/-- **Pieces of text that have the tokens of one declaration each** are read as these. -/
theorem parseDeclarations_flatMap {α : Type} {xs : List α} {f : α → List String}
    {t : α → Statement} (hlexes : ∀ x ∈ xs, Lexes (lineChars (f x)) (some (t x).tokens))
    (ht : ∀ x ∈ xs, (t x).WellFormed known) :
    parseDeclarations (Emit.textOf (xs.flatMap f)) = .ok (graphOf (xs.map t)) := by
  have htokens : tokens? (Emit.textOf (xs.flatMap f)).toList =
      some ((xs.map fun x => ((t x).tokens, some (t x))).flatMap Prod.fst) := by
    rw [Emit.toList_textOf, (lexes_flatMap hlexes).tokens, joinedAll_map_some, List.flatMap_map]
  have hkept : (xs.map fun x => ((t x).tokens, some (t x))).filterMap Prod.snd = xs.map t := by
    rw [List.filterMap_map]
    exact congrFun List.filterMap_eq_map xs
  rw [← hkept]
  refine parseDeclarations_of_tokens htokens fun chunk hchunk => ?_
  obtain ⟨x, hx, rfl⟩ := List.mem_map.1 hchunk
  exact (ht x hx).reads

/-! ## Numbers that are read -/

theorem exists_rereadMembers {members : List (Member TypeExpr)}
    (h : ∀ m ∈ members, ∃ e, m.type.reread? = some e) :
    ∃ others, rereadMembers? members = some others := by
  induction members with
  | nil => exact ⟨[], rfl⟩
  | cons m members ih =>
    obtain ⟨e, he⟩ := h m List.mem_cons_self
    obtain ⟨others, hothers⟩ := ih fun n hn => h n (List.mem_cons_of_mem _ hn)
    exact ⟨_, by rw [rereadMembers?, he, hothers]; rfl⟩

theorem exists_rereadAll {members : List TypeExpr} (h : ∀ e ∈ members, ∃ f, e.reread? = some f) :
    ∃ others, rereadAll? members = some others := by
  induction members with
  | nil => exact ⟨[], rfl⟩
  | cons e members ih =>
    obtain ⟨f, hf⟩ := h e List.mem_cons_self
    obtain ⟨others, hothers⟩ := ih fun x hx => h x (List.mem_cons_of_mem _ hx)
    exact ⟨_, by rw [rereadAll?, hf, hothers]; rfl⟩

theorem exists_reread_oneOrUnion {members : List TypeExpr}
    (h : ∀ e ∈ members, ∃ f, e.reread? = some f) : ∃ f, (oneOrUnion members).reread? = some f := by
  rw [oneOrUnion.eq_def]
  split
  · exact h _ List.mem_cons_self
  · obtain ⟨others, hothers⟩ := exists_rereadAll h
    exact ⟨.union others, by rw [TypeExpr.reread?, hothers]; rfl⟩

theorem exists_reread_literalExpr {value : Json}
    (h : ∀ n, value = .number n → ∃ m, rereadNumber? n = some m) :
    ∃ e, (literalExpr value).reread? = some e := by
  cases value with
  | number n =>
    obtain ⟨m, hm⟩ := h n rfl
    exact ⟨.literal (.number m), by simp [literalExpr, TypeExpr.reread?, rereadLiteral?, hm]⟩
  | _ => exact ⟨_, rfl⟩

theorem exists_reread_grouped {e : TypeExpr} (h : ∃ f, e.reread? = some f) (grouped : Bool) :
    ∃ f, (if grouped then TypeExpr.group e else e).reread? = some f := by
  obtain ⟨f, hf⟩ := h
  cases grouped with
  | false => exact ⟨f, hf⟩
  | true => exact ⟨.group f, by rw [if_pos rfl, TypeExpr.reread?, hf]; rfl⟩

/-- The numbers of a shape are read as numbers. -/
def NumbersRead : TypeKind → Prop
  | .enumeration values => ∀ n, .number n ∈ values → ∃ m, rereadNumber? n = some m
  | _ => True

theorem exists_reread_kindExpr {kind : TypeKind} (hkind : NumbersRead kind)
    (h : ∀ child ∈ kind.references, ∃ e, (expr g faithful child).reread? = some e) :
    ∃ e, (kindExpr g faithful (expr g faithful) kind).reread? = some e := by
  cases kind with
  | unknown | primitive => exact ⟨_, rfl⟩
  | object fields =>
    have hmembers : ∀ m ∈ membersOf faithful (expr g faithful) fields,
        ∃ e, m.type.reread? = some e := by
      intro m hm
      obtain ⟨field, hfield, rfl⟩ := List.mem_map.1 hm
      exact h _ (List.mem_map_of_mem hfield)
    obtain ⟨others, hothers⟩ := exists_rereadMembers hmembers
    exact ⟨.object others, by rw [kindExpr, TypeExpr.reread?, hothers]; rfl⟩
  | map value =>
    obtain ⟨e, he⟩ := h value (List.mem_singleton_self _)
    exact ⟨.record e, by rw [kindExpr, TypeExpr.reread?, he]; rfl⟩
  | array item =>
    obtain ⟨e, he⟩ :=
      exists_reread_grouped (h item (List.mem_singleton_self _)) (isChoice g item 1 1)
    exact ⟨.array e, by rw [kindExpr, TypeExpr.reread?, he]; rfl⟩
  | enumeration values =>
    refine exists_reread_oneOrUnion fun e he => ?_
    obtain ⟨value, hvalue, rfl⟩ := List.mem_map.1 he
    exact exists_reread_literalExpr fun n hn => hkind n (hn ▸ hvalue)
  | union members =>
    rw [kindExpr_union]
    refine exists_reread_oneOrUnion fun e he => ?_
    obtain ⟨member, hmember, rfl⟩ := List.mem_map.1 he
    exact exists_reread_grouped (h member hmember) _

theorem exists_reread_expr (hg : Descends g) (hnodes : ∀ id, nodes id → id < g.size)
    (hclosed : ReferencesStay g nodes) (hnumbers : ∀ id, nodes id → NumbersRead (g.kind id))
    (hid : nodes id) : ∃ e, (expr g faithful id).reread? = some e := by
  have hdepth := hg.depth (hnodes id hid)
  generalize g.size = depth at hdepth
  induction hdepth with
  | @named _ id hname =>
    obtain ⟨name, hname⟩ := Option.ne_none_iff_exists'.1 hname
    exact ⟨.name name, by rw [expr_of_named hname]; rfl⟩
  | @anonymous _ id _ ih =>
    cases hname : g.nameOf id with
    | some name => exact ⟨.name name, by rw [expr_of_named hname]; rfl⟩
    | none =>
      rw [expr_of_anonymous hg (hnodes id hid) hname]
      exact exists_reread_kindExpr (hnumbers id hid) fun child hchild =>
        ih child hchild (hclosed id hid child hchild)

theorem exists_reread_statement (hg : Descends g) (hnodes : ∀ id, nodes id → id < g.size)
    (hclosed : ReferencesStay g nodes) (hnumbers : ∀ id, nodes id → NumbersRead (g.kind id))
    (hid : nodes id) {s : Statement} (hs : statement? g faithful id = some s) :
    ∃ t, s.reread? = some t := by
  obtain ⟨e, he⟩ := exists_reread_kindExpr (g := g) (hnumbers id hid) fun child hchild =>
    exists_reread_expr hg hnodes hclosed hnumbers (hclosed id hid child hchild)
  rw [← (type_of_statement? hs).2] at he
  cases s with
  | interface name members =>
    obtain ⟨others, hothers, -⟩ := Option.map_eq_some_iff.1 he
    exact ⟨.interface name others, by rw [Statement.reread?, hothers]; rfl⟩
  | typeAlias name type => exact ⟨.typeAlias name e, by rw [Statement.reread?]; exact he ▸ rfl⟩

/-! ## Both directions -/

/-- Whatever else is declared, the graph of declarations of different names holds what those of the
named types leave behind. -/
theorem recovers_graphOf {statements : List Statement}
    (hstatements : ∀ t ∈ statements, t.WellFormed known)
    (hnames : (statements.map Statement.name).Nodup)
    (hall : ∀ id, g.nameOf id ≠ none →
      ∃ s, ∃ t ∈ statements, statement? g faithful id = some s ∧ s.reread? = some t) :
    Recovers g (graphOf statements) nodes := by
  obtain ⟨hgrown, hdefined, -⟩ := graphOf_spec hstatements hnames
  refine ⟨hgrown.toSound, fun {id name} _ hname => ?_⟩
  obtain ⟨s, t, ht, hs, hreread⟩ := hall id (by rw [hname]; exact Option.some_ne_none _)
  obtain ⟨node, target, hnode⟩ := hdefined t ht
  exact ⟨s, t, node, target, hs, hreread, hnode⟩

/-- Every named type has an equivalent one in a graph that holds what the declarations leave
behind. -/
theorem covers_of_recovers (hg : g.Sound) (hacyclic : g.Acyclic)
    (hcanonical : ∀ id, nodes id → Canonical g id) (hnodes : ∀ id, nodes id → id < g.size)
    (hnamed : ∀ id, g.nameOf id ≠ none → nodes id) (hclosed : ReferencesStay g nodes)
    (hrecovers : Recovers g h nodes) : g.covers h = true := by
  have hbisimulation :=
    bisimulation_stands ⟨hg.references, hacyclic⟩ hnodes hcanonical hclosed hrecovers
  refine List.all_eq_true.2 fun ⟨name, id⟩ hmem => ?_
  have hname := hg.nameOf_of_lookup (hg.lookup_of_mem hmem)
  have hid : nodes id := hnamed id (by rw [hname]; exact Option.some_ne_none _)
  obtain ⟨s, t, node, target, hs, ht, hdefined⟩ := hrecovers.defined hid hname
  have hlookup := hdefined.lookup
  rw [Statement.name_of_reread ht, ← Option.some.inj (hname.symm.trans (type_of_statement? hs).1)]
    at hlookup
  simp only [hlookup]
  exact hbisimulation.equivalent hg.references hrecovers.sound.references hacyclic
    ⟨hid, .name name, by rw [expr_of_named hname]; rfl, .name hlookup⟩

/-- And every named type of that graph has an equivalent one in the graph that was written, if it
has a name from there. -/
theorem covers_of_recovers_flip (hg : g.Sound) (hacyclic : g.Acyclic) (hh : h.Grown)
    (hcanonical : ∀ id, nodes id → Canonical g id) (hnodes : ∀ id, nodes id → id < g.size)
    (hnamed : ∀ id, g.nameOf id ≠ none → nodes id) (hclosed : ReferencesStay g nodes)
    (hrecovers : Recovers g h nodes)
    (hknown : ∀ name id, h.lookup name = some id → ∃ other, g.lookup name = some other) :
    h.covers g = true := by
  have hbisimulation :=
    bisimulation_stands ⟨hg.references, hacyclic⟩ hnodes hcanonical hclosed hrecovers
  refine List.all_eq_true.2 fun ⟨name, id⟩ hmem => ?_
  have hlookup := hh.lookup_of_mem hmem
  obtain ⟨other, hother⟩ := hknown name id hlookup
  have hname := hg.nameOf_of_lookup hother
  have hid : nodes other := hnamed other (by rw [hname]; exact Option.some_ne_none _)
  simp only [hother]
  exact hbisimulation.flip.equivalent hh.references hg.references hh.acyclic
    ⟨hid, .name name, by rw [expr_of_named hname]; rfl, .name hlookup⟩

/-! ## The whole text -/

/-- A graph in the form that declarations are written from. -/
structure CanonicalGraph (g : TypeGraph) : Prop where
  /-- Names are names of declarations. -/
  names : ∀ id name, g.nameOf id = some name → IsDeclaredName name
  /-- Nodes have forms that the text can tell apart. -/
  nodes : ∀ id < g.size, Canonical g id

/-- The text of the declarations of some nodes. -/
def declarationsText (g : TypeGraph) (ids : List TypeId) : String :=
  Emit.textOf (ids.flatMap fun id => (declaration? g faithful id).getD [])

theorem CanonicalValues.numbersRead {values : List Json} (h : CanonicalValues values) :
    NumbersRead (.enumeration values) := by
  intro n hn
  obtain ⟨m, hm, -⟩ := h.numbers n hn
  exact ⟨m, hm⟩

theorem Canonical.numbersRead (h : Canonical g id) : NumbersRead (g.kind id) := by
  rw [Canonical] at h
  cases hkind : g.kind id with
  | enumeration values =>
    rw [hkind] at h
    exact CanonicalValues.numbersRead h
  | _ => trivial

theorem Canonical.offers (h : Canonical g id) : (g.kind id).Offers := by
  rw [Canonical] at h
  cases hkind : g.kind id with
  | enumeration values =>
    rw [hkind] at h
    obtain ⟨value, hvalue, -⟩ := h.notNull
    exact List.ne_nil_of_mem hvalue
  | union members =>
    rw [hkind] at h
    rcases h with h | ⟨-, member, rfl, -⟩
    · exact List.ne_nil_of_length_pos (Nat.lt_of_lt_of_le (by decide) h)
    · exact List.cons_ne_nil _ _
  | _ => trivial

/-- What a node is declared as, and what the declaration is read as. -/
structure ReadBack (g : TypeGraph) (id : TypeId) (s t : Statement) : Prop where
  /-- The declaration of the node. -/
  statement : statement? g faithful id = some s
  /-- It can be read, and names named nodes of the graph only. -/
  wellFormed : s.WellFormed fun name => ∃ other, g.lookup name = some other
  /-- It is read as another, whose numbers are those that the texts read as. -/
  reread : s.reread? = some t

/-- Every named node of a canonical graph has a declaration that is read. -/
theorem exists_readBack (hg : g.Sound) (hacyclic : g.Acyclic) (hcanonical : CanonicalGraph g)
    (hid : g.nameOf id ≠ none) : ∃ s t, ReadBack g id s t := by
  obtain ⟨name, hname⟩ := Option.ne_none_iff_exists'.1 hid
  have hlt := TypeGraph.lt_of_nameOf hname
  have hdescends : Descends g := ⟨hg.references, hacyclic⟩
  have hclosed : ReferencesStay g (· < g.size) := hg.references
  have hwritable : ∀ id < g.size, Writable (fun name => ∃ id, g.lookup name = some id) g id :=
    fun id hid => ⟨hid, fun name hname => (hcanonical.names id name hname).isTypeName,
      fun name hname => ⟨id, hg.lookup_of_nameOf hid hname⟩,
      fun _ => (hcanonical.nodes id hid).offers⟩
  obtain ⟨s, hs⟩ : ∃ s, statement? g faithful id = some s := by
    rw [statement?, hname]
    exact ⟨_, rfl⟩
  obtain ⟨t, ht⟩ := exists_reread_statement hdescends (fun _ h => h) hclosed
    (fun id hid => (hcanonical.nodes id hid).numbersRead) hlt hs
  have hwf := wellFormed_statement hdescends hwritable hclosed hlt
    (hcanonical.nodes id hlt).offers hs
  exact ⟨s, t, hs, hwf, ht⟩

namespace ReadBack

variable {s t : Statement}

theorem nameOf (h : ReadBack g id s t) : g.nameOf id = some t.name := by
  rw [Statement.name_of_reread h.reread]
  exact (type_of_statement? h.statement).1

theorem lookup (h : ReadBack g id s t) (hg : g.Sound) : g.lookup t.name = some id :=
  hg.lookup_of_nameOf (TypeGraph.lt_of_nameOf h.nameOf) h.nameOf

theorem lexes (h : ReadBack g id s t) :
    Lexes (lineChars ((declaration? g faithful id).getD [])) (some t.tokens) := by
  obtain ⟨lines, hlines⟩ : ∃ lines, declaration? g faithful id = some lines := by
    rw [declaration?, h.statement]
    exact ⟨_, rfl⟩
  have hlexes := lexes_declaration h.statement h.wellFormed.legible hlines
  rw [h.reread] at hlexes
  rwa [hlines]

end ReadBack

/-- Different nodes have different names, so no declaration overwrites another. -/
theorem nodup_names {ids : List TypeId} {s t : TypeId → Statement} (hg : g.Sound)
    (hnodup : ids.Nodup) (h : ∀ id ∈ ids, ReadBack g id (s id) (t id)) :
    ((ids.map t).map Statement.name).Nodup := by
  rw [List.map_map]
  refine hnodup.map_on fun a ha b hb hab => ?_
  have hname : (t a).name = (t b).name := hab
  have hsame := (h a ha).lookup hg
  rw [hname, (h b hb).lookup hg] at hsame
  exact (Option.some.inj hsame).symm

/-- **Declarations are read back.**  The text that declares the named types of a canonical graph, in
any order, is read, and the graph that is read is equivalent to the one that was written, in both
directions. -/
theorem parseDeclarations_equivalent (hg : g.Sound) (hacyclic : g.Acyclic)
    (hcanonical : CanonicalGraph g) {ids : List TypeId} (hnodup : ids.Nodup)
    (hids : ∀ id, id ∈ ids ↔ g.nameOf id ≠ none) :
    ∃ h, parseDeclarations (declarationsText g ids) = .ok h ∧ g.covers h = true ∧
      h.covers g = true := by
  have hread : ∀ id ∈ ids, ∃ s t, ReadBack g id s t := fun id hid =>
    exists_readBack hg hacyclic hcanonical ((hids id).1 hid)
  have : Nonempty Statement := ⟨.typeAlias "" .unknown⟩
  choose! s t h using hread
  have hwf : ∀ u ∈ ids.map t, u.WellFormed fun name => ∃ other, g.lookup name = some other :=
    List.forall_mem_map.2 fun id hid => (h id hid).wellFormed.reread (h id hid).reread
  have hparse := parseDeclarations_flatMap (fun id hid => (h id hid).lexes)
    (List.forall_mem_map.1 hwf)
  have hnames := nodup_names hg hnodup h
  have hrecovers : Recovers g (graphOf (ids.map t)) (· < g.size) :=
    recovers_graphOf hwf hnames fun id hid =>
      have hid := (hids id).2 hid
      ⟨s id, t id, List.mem_map_of_mem hid, (h id hid).statement, (h id hid).reread⟩
  have hnamed : ∀ id, g.nameOf id ≠ none → id < g.size := by
    intro id hid
    obtain ⟨name, hname⟩ := Option.ne_none_iff_exists'.1 hid
    exact TypeGraph.lt_of_nameOf hname
  obtain ⟨hgrown, -, hknown⟩ := graphOf_spec hwf hnames
  refine ⟨_, hparse, ?_, ?_⟩
  · exact covers_of_recovers hg hacyclic hcanonical.nodes (fun _ h => h) hnamed hg.references
      hrecovers
  · refine covers_of_recovers_flip hg hacyclic hgrown hcanonical.nodes (fun _ h => h) hnamed
      hg.references hrecovers fun name id hid => ?_
    rcases hknown name id hid with ⟨u, hu, rfl⟩ | hother
    · obtain ⟨other, hmem, rfl⟩ := List.mem_map.1 hu
      exact ⟨other, (h other hmem).lookup hg⟩
    · exact hother

/-- Movies with a list of further movies, a field of an odd name and a choice for its value, a
comment that tries to close itself, and another name for movies. -/
def movies : TypeGraph :=
  ((((((TypeGraph.empty.reserve "Movie").1.add (.primitive .string)).add (.array 0)).add
    (.enumeration [.string "new", .null, .number (.integer 7)])).add (.union [1, 3])).setKind 0
      (.object [⟨"title", 1, true, some "ends */ here"⟩, ⟨"sequels", 2, false, none⟩,
        ⟨"odd name", 4, false, none⟩])).reserve "Film" |>.1.setKind 5 (.union [0])

theorem grown_movies : movies.Grown := by
  refine (((((((TypeGraph.Grown.empty.reserve _).add ?_).add ?_).add ?_).add ?_).setKind ?_
    ?_).reserve _).setKind ?_ ?_
  all_goals decide

theorem nameOf_movies (id : Nat) :
    movies.nameOf id = if id = 0 then some "Movie" else if id = 5 then some "Film" else none := by
  match id with
  | 0 | 1 | 2 | 3 | 4 | 5 => rfl
  | id + 6 =>
    rw [if_neg (by omega), if_neg (by omega)]
    exact TypeGraph.nameOf_of_size_le (Nat.le_add_left 6 id)

theorem canonicalGraph_movies : CanonicalGraph movies := by
  refine ⟨fun id name hname => ?_, fun id hid => ?_⟩
  · rw [nameOf_movies] at hname
    split at hname
    · cases hname
      exact ⟨'M', _, rfl, rfl, List.all_eq_true.1 (by decide)⟩
    · split at hname
      · cases hname
        exact ⟨'F', _, rfl, rfl, List.all_eq_true.1 (by decide)⟩
      · cases hname
  · have hid' : id < 6 := hid
    match id, hid' with
    | 0, _ | 1, _ | 2, _ => trivial
    | 3, _ =>
      refine ⟨?_, ⟨.string "new", List.mem_cons_self, by simp⟩, fun n hn => ?_⟩
      · exact List.forall_mem_cons.2 ⟨.inr (.string _), List.forall_mem_cons.2 ⟨.inl rfl,
          List.forall_mem_cons.2 ⟨.inr (.number _), by simp⟩⟩⟩
      · obtain rfl : n = .integer 7 := by simpa using hn
        exact ⟨.integer 7, by decide, rfl⟩
    | 4, _ => exact .inl (by decide)
    | 5, _ => exact .inr ⟨rfl, 0, rfl, by decide⟩

/-- The declarations of movies are read back, whichever comes first. -/
theorem parseDeclarations_equivalent_movies :
    (movies.Sound ∧ movies.Acyclic ∧ CanonicalGraph movies ∧ [5, 0].Nodup ∧
        ∀ id, id ∈ [5, 0] ↔ movies.nameOf id ≠ none) ∧
      ∃ h, parseDeclarations (declarationsText movies [5, 0]) = .ok h ∧ movies.covers h = true ∧
        h.covers movies = true := by
  have hids (id : TypeId) : id ∈ [5, 0] ↔ movies.nameOf id ≠ none := by
    rw [nameOf_movies]
    split <;> [simp_all; (split <;> simp_all)]
  exact ⟨⟨grown_movies.toSound, grown_movies.acyclic, canonicalGraph_movies, by decide, hids⟩,
    parseDeclarations_equivalent grown_movies.toSound grown_movies.acyclic canonicalGraph_movies
      (by decide) hids⟩

end TypedClient.Declaration
