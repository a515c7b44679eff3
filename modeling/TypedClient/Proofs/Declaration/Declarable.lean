import TypedClient.Proofs.Declaration.Legible
import TypedClient.Proofs.Declaration.RoundTrip

/-!
# Declarations of a graph among others

The declarations of the named types of a graph are often not all that a text declares, and a graph
may have nodes that no named type uses.

* `TypeExpr.Readable` and `Statement.ReadAs` say that a text can be read and as what;
* `Declarable` is what a graph needs for all its types to be readable, in any style, which is what
  `Declarable.exists_readAs` says;
* `InUse` says which nodes the named types are made of.
-/

set_option autoImplicit false

namespace TypedClient.Declaration

open TypedClient.Types

/-! ## What can be read -/

variable {known : String → Prop}

/-- An expression whose text can be read, numbers included. -/
structure TypeExpr.Readable (known : String → Prop) (e : TypeExpr) : Prop where
  /-- Its text has its tokens. -/
  legible : e.Legible known
  /-- Its numbers are read as numbers. -/
  reread : ∃ f, e.reread? = some f

theorem TypeExpr.Readable.mono {other : String → Prop} {e : TypeExpr} (h : e.Readable known)
    (hknown : ∀ name, known name → other name) : e.Readable other :=
  ⟨h.legible.mono hknown, h.reread⟩

theorem readable_unknown : TypeExpr.unknown.Readable known := ⟨.unknown, _, rfl⟩

theorem readable_primitive (p : Primitive) : (TypeExpr.primitive p).Readable known :=
  ⟨.primitive p, _, rfl⟩

theorem readable_name {name : String} (h : IsTypeName name) (hknown : known name) :
    (TypeExpr.name name).Readable known := ⟨.name h hknown, _, rfl⟩

theorem TypeExpr.Readable.array {item : TypeExpr} (h : item.Readable known) :
    (TypeExpr.array item).Readable known := by
  obtain ⟨hlegible, f, hf⟩ := h
  exact ⟨.array hlegible, .array f, by rw [TypeExpr.reread?, hf]; rfl⟩

theorem TypeExpr.Readable.record {value : TypeExpr} (h : value.Readable known) :
    (TypeExpr.record value).Readable known := by
  obtain ⟨hlegible, f, hf⟩ := h
  exact ⟨.record hlegible, .record f, by rw [TypeExpr.reread?, hf]; rfl⟩

theorem TypeExpr.Readable.noted {inner : TypeExpr} {note : String} (h : inner.Readable known)
    (hnote : NoClose note.toList) : (TypeExpr.noted inner note).Readable known := by
  obtain ⟨hlegible, f, hf⟩ := h
  exact ⟨.noted hlegible hnote, .noted f note, by rw [TypeExpr.reread?, hf]; rfl⟩

theorem TypeExpr.Readable.grouped {e : TypeExpr} (h : e.Readable known) (grouped : Bool) :
    (if grouped then TypeExpr.group e else e).Readable known := by
  refine ⟨?_, exists_reread_grouped h.reread grouped⟩
  split
  · exact .group h.legible
  · exact h.legible

theorem readable_object {members : List (Member TypeExpr)}
    (h : ∀ m ∈ members, m.type.Readable known) : (TypeExpr.object members).Readable known := by
  obtain ⟨others, hothers⟩ := exists_rereadMembers fun m hm => (h m hm).reread
  exact ⟨.object fun m hm => (h m hm).legible,
    .object others, by rw [TypeExpr.reread?, hothers]; rfl⟩

theorem readable_ite {c : Prop} [Decidable c] {e e' : TypeExpr} (h : e.Readable known)
    (h' : e'.Readable known) : (if c then e else e').Readable known := by
  split
  · exact h
  · exact h'

/-- One type, or several with bars between them. -/
theorem readable_oneOrUnion {members : List TypeExpr} (hne : members ≠ [])
    (h : ∀ e ∈ members, e.Readable known) : (oneOrUnion members).Readable known := by
  refine ⟨?_, exists_reread_oneOrUnion fun e he => (h e he).reread⟩
  rw [oneOrUnion.eq_def]
  split
  · exact (h _ List.mem_cons_self).legible
  · exact .union hne fun e he => (h e he).legible

/-- The text of a declaration is read as the other declaration. -/
structure Statement.ReadAs (known : String → Prop) (s t : Statement) : Prop where
  /-- Its text has its tokens. -/
  legible : s.Legible known
  /-- With its numbers read anew, it has the tokens of the other. -/
  tokens : s.reread?.map Statement.tokens = some t.tokens
  /-- The other keeps to the grammar. -/
  wellFormed : t.WellFormed known
  /-- Both have one name. -/
  name_eq : t.name = s.name

namespace Statement.ReadAs

variable {s t : Statement}

/-- What keeps to the grammar is read as it is, but for its numbers. -/
theorem of_reread (h : s.WellFormed known) (ht : s.reread? = some t) : s.ReadAs known t :=
  ⟨h.legible, congrArg (Option.map Statement.tokens) ht, h.reread ht, Statement.name_of_reread ht⟩

theorem lexes (h : s.ReadAs known t) : Lexes (lineChars s.lines) (some t.tokens) := by
  have hlines := lexes_statementLines h.legible
  rwa [h.tokens] at hlines

theorem reads (h : s.ReadAs known t) : ReadsStatement t.tokens (some t) := h.wellFormed.reads

end Statement.ReadAs

/-- A legible declaration is read as one that keeps to the grammar, if its numbers are read. -/
theorem Statement.Legible.exists_readAs {s r : Statement} (h : s.Legible known)
    (hr : s.reread? = some r) : ∃ t, s.ReadAs known t := by
  obtain ⟨t, ht, hname, htokens⟩ := (h.reread hr).exists_wellFormed
  exact ⟨t, h, by rw [hr, Option.map_some, htokens], ht, hname.trans (Statement.name_of_reread hr)⟩

theorem exists_readAs_interface {name : String} {members : List (Member TypeExpr)}
    (hname : IsTypeName name) (h : ∀ m ∈ members, m.type.Readable known) :
    ∃ t, (Statement.interface name members).ReadAs known t := by
  obtain ⟨others, hothers⟩ := exists_rereadMembers fun m hm => (h m hm).reread
  have hlegible : (Statement.interface name members).Legible known :=
    .interface hname fun m hm => (h m hm).legible
  exact hlegible.exists_readAs (by rw [Statement.reread?, hothers, Option.map_some])

theorem exists_readAs_alias {name : String} {type : TypeExpr} (hname : IsTypeName name)
    (h : type.Readable known) : ∃ t, (Statement.typeAlias name type).ReadAs known t := by
  obtain ⟨other, hother⟩ := h.reread
  have hlegible : (Statement.typeAlias name type).Legible known := .typeAlias hname h.legible
  exact hlegible.exists_readAs (by rw [Statement.reread?, hother, Option.map_some])

/-! ## Shapes -/

variable {g : TypeGraph} {id : TypeId} {style : Style} {f : TypeId → TypeExpr}

theorem readable_membersOf (hf : ∀ id, (f id).Readable known) (fields : List Field) :
    ∀ m ∈ membersOf style f fields, m.type.Readable known := by
  intro m hm
  obtain ⟨field, -, rfl⟩ := List.mem_map.1 hm
  exact hf field.type

/-- What the members of a union have in common. -/
theorem readable_commonShape (hf : ∀ id, (f id).Readable known) (members : List TypeId) :
    (commonShape g style f members).Readable known := by
  rw [commonShape.eq_def]
  split
  · exact readable_primitive .null
  · split
    · exact readable_object (readable_membersOf hf _)
    · exact readable_unknown
  · refine readable_ite readable_unknown.array ?_
    split
    · exact readable_ite (readable_primitive _) readable_unknown
    · exact readable_unknown

/-- A union that is written as what its members have in common: the comment ends behind the
members, whatever their texts are. -/
theorem readable_widenedExpr (hf : ∀ id, (f id).Readable known) (members : List TypeId) :
    (widenedExpr g style f members).Readable known := by
  have hlisted (text : List Char) : NoClose (String.ofList (inComment text)).toList := by
    rw [String.toList_ofList]
    exact noClose_inComment text
  refine (readable_commonShape hf members).noted ?_
  rw [String.toList_append]
  exact .append (noClose_of_notMem (by decide)) (hlisted _) (.inl (by decide))

/-- **The expression for a shape can be read** if those for the nodes that it refers to can. -/
theorem readable_kindExpr (g : TypeGraph) (style : Style) {kind : TypeKind} (hoffers : kind.Offers)
    (hnumbers : NumbersRead kind) (hf : ∀ id, (f id).Readable known) :
    (kindExpr g style f kind).Readable known := by
  cases kind with
  | unknown => exact readable_unknown
  | primitive p => exact readable_primitive p
  | object fields => exact readable_object (readable_membersOf hf fields)
  | map value => exact (hf value).record
  | array item => exact ((hf item).grouped _).array
  | enumeration values =>
    refine readable_oneOrUnion (by simpa [TypeKind.Offers] using hoffers) fun e he => ?_
    obtain ⟨value, hvalue, rfl⟩ := List.mem_map.1 he
    exact ⟨(wellFormed_literalExpr value true).legible,
      exists_reread_literalExpr fun n hn => hnumbers n (hn ▸ hvalue)⟩
  | union members =>
    have hne : members ≠ [] := hoffers
    rw [kindExpr]
    split
    · split
      · exact readable_widenedExpr hf members
      · refine readable_oneOrUnion (by simpa using hne) fun e he => ?_
        obtain ⟨member, -, rfl⟩ := List.mem_map.1 he
        exact hf member
    · refine readable_oneOrUnion (by simpa using hne) fun e he => ?_
      obtain ⟨member, -, rfl⟩ := List.mem_map.1 he
      exact (hf member).grouped _

/-! ## Graphs that can be declared -/

/-- A graph all of whose types can be written as text that is read. -/
structure Declarable (g : TypeGraph) : Prop where
  /-- The graph is in order. -/
  grown : g.Grown
  /-- Names are names of declarations. -/
  names : ∀ id name, g.nameOf id = some name → IsDeclaredName name
  /-- No type is a choice among nothing. -/
  offers : ∀ id, (g.kind id).Offers
  /-- Numbers are read as numbers. -/
  numbers : ∀ id, NumbersRead (g.kind id)

/-- The name is one of a node. -/
def IsNameIn (g : TypeGraph) (name : String) : Prop := ∃ id, g.lookup name = some id

theorem Grown.descends (hg : g.Grown) : Descends g := ⟨hg.references, hg.acyclic⟩

theorem Declarable.writable (hg : Declarable g) (hid : id < g.size) :
    Writable (fun _ => True) g id :=
  ⟨hid, fun name hname => (hg.names id name hname).isTypeName, fun _ _ => trivial,
    fun _ => hg.offers id⟩

/-- **The expression for any node can be read**, however unions are written, and refers to names of
the graph. -/
theorem Declarable.readable (hg : Declarable g) (style : Style) (id : TypeId) :
    (expr g style id).Readable (IsNameIn g) := by
  refine expr_all (fun _ => readable_unknown) (fun id name hname => ?_)
    (fun id _ _ hf => readable_kindExpr g style (hg.offers id) (hg.numbers id) hf) id
  have hid := TypeGraph.lt_of_nameOf hname
  exact readable_name (hg.names id name hname).isTypeName ⟨id, hg.grown.lookup_of_nameOf hid hname⟩

/-- **Every named type has a declaration that can be read**, however unions are written. -/
theorem Declarable.exists_readAs (hg : Declarable g) (style : Style) {name : String}
    (hname : g.nameOf id = some name) :
    ∃ s t, statement? g style id = some s ∧ s.ReadAs (IsNameIn g) t := by
  have htype := (hg.names id name hname).isTypeName
  have hshape := readable_kindExpr g style (hg.offers id) (hg.numbers id) (hg.readable style)
  rw [statement?, hname, Option.map_some]
  cases hkind : g.kind id with
  | object fields =>
    obtain ⟨t, ht⟩ := exists_readAs_interface htype (readable_membersOf (hg.readable style) fields)
    exact ⟨_, t, rfl, ht⟩
  | _ =>
    rw [hkind] at hshape
    obtain ⟨t, ht⟩ := exists_readAs_alias htype hshape
    exact ⟨_, t, rfl, ht⟩

/-- Written as it is, every named type has a declaration that is read as it is, but for its
numbers. -/
theorem Declarable.exists_reread (hg : Declarable g) {name : String}
    (hname : g.nameOf id = some name) :
    ∃ s t, statement? g faithful id = some s ∧ (s.WellFormed fun _ => True) ∧
      s.reread? = some t := by
  have hid := TypeGraph.lt_of_nameOf hname
  obtain ⟨s, hs⟩ : ∃ s, statement? g faithful id = some s := by
    rw [statement?, hname]
    exact ⟨_, rfl⟩
  obtain ⟨t, ht⟩ := exists_reread_statement (Grown.descends hg.grown) (fun _ h => h)
    hg.grown.references (fun id _ => hg.numbers id) hid hs
  exact ⟨s, t, hs, wellFormed_statement (Grown.descends hg.grown) (fun _ => hg.writable)
    hg.grown.references hid (hg.offers id) hs, ht⟩

/-! ## What named types are made of -/

/-- A node that named types are made of: it has a name, or a node in use refers to it. -/
inductive InUse (g : TypeGraph) : TypeId → Prop
  /-- The node has a name. -/
  | named {id : TypeId} (h : g.nameOf id ≠ none) : InUse g id
  /-- A node in use refers to it. -/
  | reference {id child : TypeId} (h : InUse g id) (hchild : child ∈ (g.kind id).references) :
      InUse g child

theorem InUse.lt (hg : g.Grown) (h : InUse g id) : id < g.size := by
  induction h with
  | named h =>
    obtain ⟨name, hname⟩ := Option.ne_none_iff_exists'.1 h
    exact TypeGraph.lt_of_nameOf hname
  | reference _ hchild ih => exact hg.references _ ih _ hchild

end TypedClient.Declaration
