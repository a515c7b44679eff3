import TypedClient.Proofs.Declaration.Declarable
import TypedClient.Proofs.Json.Agreement
import TypedClient.Proofs.Types.Conformance

/-!
# The values that declarations admit

A type expression admits values by itself, up to the names in it.  Whether an expression is read
with its comments left out and its numbers read anew, or put into a graph, makes no difference to
that.

* `TypeExpr.Accepts` says which values an expression admits, where it is told what names admit;
* `TypeExpr.ReadAs` says that the text of an expression is read as another that admits the same;
* `conforms_of_declared` says that values conform to a node that stands for an expression which
  admits them, as long as the names in it are declared as types that admit as much, in turn;
* `Placed.conforms_iff` says that they are the only ones.
-/

set_option autoImplicit false

namespace TypedClient.Declaration

open TypedClient.Types

variable {M : String → Json → Prop} {v : Json} {e f : TypeExpr}

/-! ## Expressions and values -/

/-- The expression admits the value, where `M` says what names admit. -/
inductive TypeExpr.Accepts (M : String → Json → Prop) : TypeExpr → Json → Prop
  /-- Every value. -/
  | unknown {v : Json} : Accepts M .unknown v
  /-- A scalar of the type. -/
  | primitive {p : Primitive} {v : Json} (h : p.admits v = true) : Accepts M (.primitive p) v
  /-- The one scalar. -/
  | literal {value v : Json} (h : value.agrees v = true) : Accepts M (.literal value) v
  /-- What the name admits. -/
  | name {name : String} {v : Json} (h : M name v) : Accepts M (.name name) v
  /-- A list of items of the type. -/
  | array {item : TypeExpr} {items : List Json} (h : ∀ v ∈ items, Accepts M item v) :
      Accepts M (.array item) (.array items)
  /-- An object with members of the type. -/
  | record {value : TypeExpr} {values : Dict Json} (h : ∀ entry ∈ values, Accepts M value entry.2) :
      Accepts M (.record value) (.object values)
  /-- An object whose members have the types that are given; only optional ones may be missing. -/
  | object {members : List (Member TypeExpr)} {values : Dict Json}
      (hpresent : ∀ m ∈ members, ∀ v, Dict.get? values m.name = some v → Accepts M m.type v)
      (hrequired : ∀ m ∈ members, m.optional = false → (Dict.get? values m.name).isSome) :
      Accepts M (.object members) (.object values)
  /-- A value of one of the types. -/
  | union {members : List TypeExpr} {member : TypeExpr} {v : Json} (hmember : member ∈ members)
      (h : Accepts M member v) : Accepts M (.union members) v
  /-- A value of what is in parentheses. -/
  | group {inner : TypeExpr} {v : Json} (h : Accepts M inner v) : Accepts M (.group inner) v
  /-- A value of what a comment stands behind. -/
  | noted {inner : TypeExpr} {note : String} {v : Json} (h : Accepts M inner v) :
      Accepts M (.noted inner note) v

theorem accepts_primitive {p : Primitive} :
    (TypeExpr.primitive p).Accepts M v ↔ p.admits v = true := by
  refine ⟨fun h => ?_, .primitive⟩
  cases h with
  | primitive h => exact h

theorem accepts_literal {value : Json} :
    (TypeExpr.literal value).Accepts M v ↔ value.agrees v = true := by
  refine ⟨fun h => ?_, .literal⟩
  cases h with
  | literal h => exact h

theorem accepts_name {name : String} : (TypeExpr.name name).Accepts M v ↔ M name v := by
  refine ⟨fun h => ?_, .name⟩
  cases h with
  | name h => exact h

theorem accepts_array {item : TypeExpr} :
    (TypeExpr.array item).Accepts M v ↔
      ∃ items, v = .array items ∧ ∀ x ∈ items, item.Accepts M x := by
  constructor
  · intro h
    cases h with
    | array h => exact ⟨_, rfl, h⟩
  · rintro ⟨items, rfl, h⟩
    exact .array h

theorem accepts_record {value : TypeExpr} : (TypeExpr.record value).Accepts M v ↔
    ∃ values, v = .object values ∧ ∀ entry ∈ values, value.Accepts M entry.2 := by
  constructor
  · intro h
    cases h with
    | record h => exact ⟨_, rfl, h⟩
  · rintro ⟨values, rfl, h⟩
    exact .record h

/-- What an object has to hold for a member of an object type. -/
structure MemberAccepts (M : String → Json → Prop) (values : Dict Json) (m : Member TypeExpr) :
    Prop where
  /-- A value of the name is of the type. -/
  present : ∀ v, Dict.get? values m.name = some v → m.type.Accepts M v
  /-- A value that has to be there is there. -/
  required : m.optional = false → (Dict.get? values m.name).isSome

theorem accepts_object {members : List (Member TypeExpr)} : (TypeExpr.object members).Accepts M v ↔
    ∃ values, v = .object values ∧ ∀ m ∈ members, MemberAccepts M values m := by
  constructor
  · intro h
    cases h with
    | object hpresent hrequired => exact ⟨_, rfl, fun m hm => ⟨hpresent m hm, hrequired m hm⟩⟩
  · rintro ⟨values, rfl, h⟩
    exact .object (fun m hm => (h m hm).present) fun m hm => (h m hm).required

theorem accepts_union {members : List TypeExpr} :
    (TypeExpr.union members).Accepts M v ↔ ∃ member ∈ members, member.Accepts M v := by
  constructor
  · intro h
    cases h with
    | union hmember h => exact ⟨_, hmember, h⟩
  · rintro ⟨member, hmember, h⟩
    exact .union hmember h

theorem accepts_group : (TypeExpr.group e).Accepts M v ↔ e.Accepts M v := by
  refine ⟨fun h => ?_, .group⟩
  cases h with
  | group h => exact h

theorem accepts_noted {note : String} : (TypeExpr.noted e note).Accepts M v ↔ e.Accepts M v := by
  refine ⟨fun h => ?_, .noted⟩
  cases h with
  | noted h => exact h

theorem accepts_oneOrUnion {members : List TypeExpr} :
    (oneOrUnion members).Accepts M v ↔ ∃ member ∈ members, member.Accepts M v := by
  rw [oneOrUnion.eq_def]
  split
  · simp
  · exact accepts_union

/-- A union of literals and null admits what agrees with one of their values. -/
theorem accepts_enumeration {members : List TypeExpr} {values : List Json}
    (h : enumerationValues? members = some values) :
    (TypeExpr.union members).Accepts M v ↔ ∃ value ∈ values, value.agrees v = true := by
  have hvalues : List.Forall₂ (fun e value => literalValue? e = some value) members values := by
    rw [enumerationValues?] at h
    split at h
    · exact forall₂_of_mapM h
    · cases h
  have hsame {e : TypeExpr} {value : Json} (h : literalValue? e = some value) :
      e.Accepts M v ↔ value.agrees v = true := by
    rw [literalValue?.eq_def] at h
    split at h
    · cases h
      exact accepts_literal
    · cases h
      rw [accepts_primitive]
      cases v <;> rfl
    · cases h
  rw [accepts_union]
  constructor
  · rintro ⟨e, he, haccepts⟩
    obtain ⟨value, hvalue, h⟩ := exists_of_mem_left hvalues he
    exact ⟨value, hvalue, (hsame h).1 haccepts⟩
  · rintro ⟨value, hvalue, hagrees⟩
    obtain ⟨e, he, h⟩ := exists_of_mem_right hvalues hvalue
    exact ⟨e, he, (hsame h).2 hagrees⟩

/-! ## Nodes that stand for expressions -/

variable {k : TypeGraph} {id : TypeId}

theorem admits_array {R : TypeId → Json → Prop} {item : TypeId} :
    Admits R (.array item) v ↔ ∃ items, v = .array items ∧ ∀ x ∈ items, R item x := by
  cases v <;> simp [Admits]

theorem admits_map {R : TypeId → Json → Prop} {entry : TypeId} :
    Admits R (.map entry) v ↔ ∃ values, v = .object values ∧ ∀ x ∈ values, R entry x.2 := by
  cases v <;> simp [Admits]

theorem admits_object {R : TypeId → Json → Prop} {fields : List Field} :
    Admits R (.object fields) v ↔
      ∃ values, v = .object values ∧ ∀ field ∈ fields, FieldAdmits R values field := by
  cases v <;> simp [Admits]

/-- Two lists of one length, item by item. -/
theorem forall₂_of_zip {α β : Type} {R : α → β → Prop} {as : List α} {bs : List β}
    (hlength : as.length = bs.length) (h : ∀ p ∈ as.zip bs, R p.1 p.2) : List.Forall₂ R as bs :=
  List.forall₂_iff_zip.2 ⟨hlength, fun hab => h _ hab⟩

/-- A node that stands for an expression admits what the expression admits, one step down. -/
theorem Placed.admits {T : TypeId → Json → Prop} (h : Placed k e id) (he : e.Accepts M v)
    (hT : ∀ {e id v}, Placed k e id → e.Accepts M v → T id v)
    (hname : ∀ name, k.lookup name = some id → M name v → Admits T (k.kind id) v) :
    Admits T (k.kind id) v := by
  induction h with
  | name hid => exact hname _ hid (accepts_name.1 he)
  | unknown hid =>
    rw [hid.kind]
    trivial
  | primitive hid =>
    rw [hid.kind]
    exact accepts_primitive.1 he
  | literal hid =>
    rw [hid.kind]
    exact ⟨_, List.mem_singleton_self _, accepts_literal.1 he⟩
  | array hid hitem =>
    obtain ⟨items, rfl, hitems⟩ := accepts_array.1 he
    rw [hid.kind]
    exact fun v hv => hT hitem (hitems v hv)
  | record hid hvalue =>
    obtain ⟨values, rfl, hvalues⟩ := accepts_record.1 he
    rw [hid.kind]
    exact fun entry hentry => hT hvalue (hvalues entry hentry)
  | @object members id ids hid hlength hall =>
    obtain ⟨values, rfl, hvalues⟩ := accepts_object.1 he
    rw [hid.kind]
    have hmembers : List.Forall₂ (fun m id => m ∈ members ∧ Placed k m.type id) members ids :=
      forall₂_of_zip hlength fun p hp => ⟨(List.of_mem_zip hp).1, hall p hp⟩
    refine forall_mem_zipWith hmembers fun m child ⟨hm, hchild⟩ => ?_
    exact ⟨fun v hv => hT hchild ((hvalues m hm).present v hv), fun hrequired =>
      (hvalues m hm).required (by simpa using hrequired)⟩
  | enumeration hvalues hid =>
    rw [hid.kind]
    exact (accepts_enumeration hvalues).1 he
  | union _ hid hlength hall =>
    rw [hid.kind]
    obtain ⟨member, hmember, haccepts⟩ := accepts_union.1 he
    obtain ⟨child, hchild, hplaced⟩ := exists_of_mem_left (forall₂_of_zip hlength hall) hmember
    exact ⟨child, hchild, hT hplaced haccepts⟩
  | group _ ih => exact ih (accepts_group.1 he) hname

/-- Of declarations that may refer to each other and to themselves: values conform to a node that
stands for an expression which admits them, if what names admit in it the types admit that they are
declared as. -/
theorem conforms_of_declared (hk : k.Sound) (hM : ∀ name id v, k.lookup name = some id → M name v →
      ∃ s target, Defined k s id target ∧ s.type.Accepts M v)
    (h : Placed k e id) (he : e.Accepts M v) : Conforms k id v := by
  refine conforms_of_admits (R := fun id v => ∃ e, Placed k e id ∧ e.Accepts M v) ?_ ⟨e, h, he⟩
  rintro id v ⟨e, h, he⟩
  refine h.admits he (fun h he => .inl ⟨_, h, he⟩) fun name hid hv => ?_
  obtain ⟨s, target, hdefined, hs⟩ := hM name id v hid hv
  rw [hdefined.kind, declaredKind]
  split
  · exact ⟨target, List.mem_singleton_self _, .inl ⟨_, hdefined.placed, hs⟩⟩
  · rename_i hanonymous
    refine hdefined.placed.admits hs (fun h he => .inl ⟨_, h, he⟩) fun other hother _ => ?_
    exact absurd (by rw [hk.nameOf_of_lookup hother]; rfl) hanonymous

/-- What a name admits is what conforms to its node. -/
def Declared (k : TypeGraph) (name : String) (v : Json) : Prop :=
  ∃ id, k.lookup name = some id ∧ Conforms k id v

theorem admits_of_conforms {kind : TypeKind} (hid : IsAnonymous k id kind) (hv : Conforms k id v) :
    Admits (Conforms k) kind v := hid.kind ▸ hv.admits

/-- What conforms to a node that stands for an expression is admitted by the expression. -/
theorem Placed.accepts (h : Placed k e id) (hv : Conforms k id v) : e.Accepts (Declared k) v := by
  induction h generalizing v with
  | name hid => exact .name ⟨_, hid, hv⟩
  | unknown => exact .unknown
  | primitive hid =>
    have hvalue := admits_of_conforms hid hv
    exact .primitive hvalue
  | literal hid =>
    have hvalue := admits_of_conforms hid hv
    obtain ⟨value, hmem, hagrees⟩ := hvalue
    exact .literal (List.mem_singleton.1 hmem ▸ hagrees)
  | array hid _ ih =>
    have hvalue := admits_of_conforms hid hv
    obtain ⟨items, rfl, hitems⟩ := admits_array.1 hvalue
    exact .array fun x hx => ih (hitems x hx)
  | record hid _ ih =>
    have hvalue := admits_of_conforms hid hv
    obtain ⟨values, rfl, hvalues⟩ := admits_map.1 hvalue
    exact .record fun x hx => ih (hvalues x hx)
  | @object members id ids hid hlength _ ih =>
    have hvalue := admits_of_conforms hid hv
    obtain ⟨values, rfl, hvalues⟩ := admits_object.1 hvalue
    refine accepts_object.2 ⟨values, rfl, fun m hm => ?_⟩
    have hpairs : List.Forall₂ (fun m child => (m, child) ∈ members.zip ids) members ids :=
      forall₂_of_zip hlength fun p hp => hp
    obtain ⟨child, -, hpair⟩ := exists_of_mem_left hpairs hm
    have hfield : (⟨m.name, child, !m.optional, none⟩ : Field) ∈ fieldsOf members ids := by
      rw [fieldsOf, ← List.map_uncurry_zip_eq_zipWith]
      exact List.mem_map_of_mem hpair
    have hadmits := hvalues _ hfield
    exact ⟨fun x hx => ih _ hpair (hadmits.present x hx), fun hoptional =>
      hadmits.required (by simpa using hoptional)⟩
  | enumeration hvalues hid =>
    have hvalue := admits_of_conforms hid hv
    exact (accepts_enumeration hvalues).2 hvalue
  | union _ hid hlength _ ih =>
    have hvalue := admits_of_conforms hid hv
    obtain ⟨child, hchild, hconforms⟩ := hvalue
    have hpairs : List.Forall₂ (fun m child => (m, child) ∈ List.zip _ _) _ _ :=
      forall₂_of_zip hlength fun p hp => hp
    obtain ⟨member, hmember, hpair⟩ := exists_of_mem_right hpairs hchild
    exact .union hmember (ih _ hpair hconforms)
  | group _ ih => exact .group (ih hv)

/-- **A node admits what the expression admits that it stands for.** -/
theorem Placed.conforms_iff (h : Placed k e id) : Conforms k id v ↔ e.Accepts (Declared k) v := by
  refine ⟨h.accepts, fun he => ?_⟩
  refine conforms_of_admits (R := fun id v => ∃ e, Placed k e id ∧ e.Accepts (Declared k) v) ?_
    ⟨e, h, he⟩
  rintro id v ⟨e, h, he⟩
  refine h.admits he (fun h he => .inl ⟨_, h, he⟩) fun name hid ⟨other, hother, hv⟩ => ?_
  obtain rfl := Option.some.inj (hid.symm.trans hother)
  exact hv.admits.mono_of_enters fun _ _ _ h => .inr h

/-- A name admits what the type admits that it is declared as. -/
theorem Defined.conforms_iff {s : Statement} {target : TypeId} (h : Defined k s id target) :
    Conforms k id v ↔ s.type.Accepts (Declared k) v := by
  rw [← h.placed.conforms_iff, Types.conforms_iff, h.kind, declaredKind]
  split
  · simp [Admits]
  · exact Types.conforms_iff.symm

/-! ## Expressions that are read -/

variable {known : String → Prop} {whole : Bool}

/-- The text of the expression is read as the other, which admits the same. -/
structure TypeExpr.ReadAs (known : String → Prop) (whole : Bool) (e f : TypeExpr) : Prop where
  /-- Its text has its tokens. -/
  legible : e.Legible known
  /-- With its numbers read anew, it has the tokens of the other. -/
  tokens : e.reread?.map TypeExpr.tokens = some f.tokens
  /-- The other keeps to the grammar. -/
  wellFormed : f.WellFormed known whole
  /-- Both admit the same. -/
  accepts : ∀ M v, f.Accepts M v ↔ e.Accepts M v

theorem readAs_unknown : TypeExpr.unknown.ReadAs known whole .unknown :=
  ⟨.unknown, rfl, .unknown, fun _ _ => Iff.rfl⟩

theorem readAs_primitive (p : Primitive) :
    (TypeExpr.primitive p).ReadAs known whole (.primitive p) :=
  ⟨.primitive p, rfl, .primitive p, fun _ _ => Iff.rfl⟩

theorem readAs_name {name : String} (h : IsTypeName name) (hknown : known name) :
    (TypeExpr.name name).ReadAs known whole (.name name) :=
  ⟨.name h hknown, rfl, .name h hknown, fun _ _ => Iff.rfl⟩

theorem TypeExpr.ReadAs.array {item : TypeExpr} (h : item.ReadAs known false f) :
    (TypeExpr.array item).ReadAs known whole (.array f) := by
  obtain ⟨r, hr, htokens⟩ := Option.map_eq_some_iff.1 h.tokens
  refine ⟨.array h.legible, ?_, .array h.wellFormed, fun M v => ?_⟩
  · simp only [TypeExpr.reread?, hr, Option.map_some, TypeExpr.tokens, htokens]
  · simp only [accepts_array, h.accepts]

theorem TypeExpr.ReadAs.record {value : TypeExpr} (h : value.ReadAs known true f) :
    (TypeExpr.record value).ReadAs known whole (.record f) := by
  obtain ⟨r, hr, htokens⟩ := Option.map_eq_some_iff.1 h.tokens
  refine ⟨.record h.legible, ?_, .record h.wellFormed, fun M v => ?_⟩
  · simp only [TypeExpr.reread?, hr, Option.map_some, TypeExpr.tokens, htokens]
  · simp only [accepts_record, h.accepts]

theorem TypeExpr.ReadAs.group (h : e.ReadAs known true f) :
    (TypeExpr.group e).ReadAs known whole (.group f) := by
  obtain ⟨r, hr, htokens⟩ := Option.map_eq_some_iff.1 h.tokens
  refine ⟨.group h.legible, ?_, .group h.wellFormed, fun M v => ?_⟩
  · simp only [TypeExpr.reread?, hr, Option.map_some, TypeExpr.tokens, htokens]
  · rw [accepts_group, accepts_group, h.accepts]

/-- A comment is not read. -/
theorem TypeExpr.ReadAs.noted {note : String} (h : e.ReadAs known whole f)
    (hnote : NoClose note.toList) : (TypeExpr.noted e note).ReadAs known whole f := by
  obtain ⟨r, hr, htokens⟩ := Option.map_eq_some_iff.1 h.tokens
  refine ⟨.noted h.legible hnote, ?_, h.wellFormed, fun M v => ?_⟩
  · simp only [TypeExpr.reread?, hr, Option.map_some, TypeExpr.tokens, htokens]
  · rw [accepts_noted, h.accepts]

/-- A member of a union or an item, in parentheses if it needs them. -/
theorem exists_readAs_grouped (grouped : Bool) (h : ∃ f, e.ReadAs known true f)
    (hsingle : grouped = false → ∃ f, e.ReadAs known false f) :
    ∃ f, (if grouped then TypeExpr.group e else e).ReadAs known false f := by
  cases grouped with
  | true =>
    obtain ⟨f, hf⟩ := h
    exact ⟨.group f, hf.group⟩
  | false => exact hsingle rfl

/-- A literal is read as what agrees with it. -/
theorem readAs_literal {value other : Json} (h : IsLiteral value)
    (hreread : rereadLiteral? value = some other) (hagrees : value.agrees other = true) :
    (TypeExpr.literal value).ReadAs known whole (.literal other) := by
  refine ⟨.literal h, ?_, .literal (h.reread hreread), fun M v => ?_⟩
  · rw [TypeExpr.reread?, hreread]
    rfl
  · have hback : other.agrees value = true := (Json.agrees_comm other value).trans hagrees
    rw [accepts_literal, accepts_literal]
    exact ⟨Json.agrees_trans value hagrees, Json.agrees_trans other hback⟩

/-- A value of an enumeration. -/
theorem exists_readAs_literalExpr {value : Json}
    (h : ∀ n, value = .number n → ∃ m, rereadNumber? n = some m ∧ n.agrees m = true) :
    ∃ f, (literalExpr value).ReadAs known whole f := by
  cases value with
  | array | object => exact ⟨_, readAs_unknown⟩
  | null => exact ⟨_, readAs_primitive .null⟩
  | bool b => exact ⟨_, readAs_literal (.bool b) rfl (Json.agrees_refl _)⟩
  | string s => exact ⟨_, readAs_literal (.string s) rfl (Json.agrees_refl _)⟩
  | number n =>
    obtain ⟨m, hm, hagrees⟩ := h n rfl
    exact ⟨_, readAs_literal (.number n) (congrArg (Option.map Json.number) hm) hagrees⟩

/-- Alternatives are read one by one. -/
theorem tokensOfAll_of_readAs {es fs : List TypeExpr}
    (h : List.Forall₂ (TypeExpr.ReadAs known whole) es fs) :
    (rereadAll? es).map tokensOfAll = some (tokensOfAll fs) := by
  induction h with
  | nil => rfl
  | cons hfirst _ ih =>
    obtain ⟨r, hr, htokens⟩ := Option.map_eq_some_iff.1 hfirst.tokens
    obtain ⟨rs, hrs, hrest⟩ := Option.map_eq_some_iff.1 ih
    simp only [rereadAll?, hr, hrs, Option.bind_some, Option.map_some, tokensOfAll, htokens, hrest]

/-- Several alternatives. -/
theorem exists_readAs_union {members : List TypeExpr} (hseveral : 1 < members.length)
    (h : ∀ e ∈ members, ∃ f, e.ReadAs known false f) :
    ∃ f, (TypeExpr.union members).ReadAs known true f := by
  obtain ⟨fs, hfs⟩ := exists_forall₂ h
  obtain ⟨rs, hrs, htokens⟩ := Option.map_eq_some_iff.1 (tokensOfAll_of_readAs hfs)
  refine ⟨.union fs, .union ?_ ?_, ?_, .union (hfs.length_eq ▸ hseveral) ?_, fun M v => ?_⟩
  · exact List.ne_nil_of_length_pos (Nat.lt_of_lt_of_le Nat.zero_lt_one hseveral.le)
  · intro e he
    obtain ⟨f, -, hf⟩ := exists_of_mem_left hfs he
    exact hf.legible
  · simp only [TypeExpr.reread?, hrs, Option.map_some, TypeExpr.tokens, htokens]
  · exact forall₂_right hfs fun e _ f hf => hf.wellFormed
  · rw [accepts_union, accepts_union]
    constructor
    · rintro ⟨f, hf, haccepts⟩
      obtain ⟨e, he, hef⟩ := exists_of_mem_right hfs hf
      exact ⟨e, he, (hef.accepts M v).1 haccepts⟩
    · rintro ⟨e, he, haccepts⟩
      obtain ⟨f, hf, hef⟩ := exists_of_mem_left hfs he
      exact ⟨f, hf, (hef.accepts M v).2 haccepts⟩

/-- A member is read as another of the same name. -/
structure Member.ReadAs (known : String → Prop) (m n : Member TypeExpr) : Prop where
  /-- Both have one name. -/
  name_eq : n.name = m.name
  /-- Both may be missing, or neither may. -/
  optional_eq : n.optional = m.optional
  /-- The type is read as the other. -/
  type : m.type.ReadAs known true n.type

theorem exists_readAs_members {members : List (Member TypeExpr)}
    (h : ∀ m ∈ members, ∃ f, m.type.ReadAs known true f) :
    ∃ others, List.Forall₂ (Member.ReadAs known) members others :=
  exists_forall₂ fun m hm => by
    obtain ⟨f, hf⟩ := h m hm
    exact ⟨⟨m.name, m.optional, f⟩, rfl, rfl, hf⟩

variable {ms ns : List (Member TypeExpr)}

theorem tokensOfMembers_of_readAs (h : List.Forall₂ (Member.ReadAs known) ms ns) :
    (rereadMembers? ms).map tokensOfMembers = some (tokensOfMembers ns) := by
  induction h with
  | nil => rfl
  | @cons m n _ _ hfirst _ ih =>
    obtain ⟨r, hr, htokens⟩ := Option.map_eq_some_iff.1 hfirst.type.tokens
    obtain ⟨rs, hrs, hrest⟩ := Option.map_eq_some_iff.1 ih
    simp only [rereadMembers?, hr, hrs, Option.bind_some, Option.map_some, tokensOfMembers, htokens,
      hrest, hfirst.name_eq, hfirst.optional_eq]

theorem accepts_object_of_readAs (h : List.Forall₂ (Member.ReadAs known) ms ns)
    (M : String → Json → Prop) (v : Json) :
    (TypeExpr.object ns).Accepts M v ↔ (TypeExpr.object ms).Accepts M v := by
  have hmember {m n : Member TypeExpr} (hmn : Member.ReadAs known m n) (values : Dict Json) :
      MemberAccepts M values n ↔ MemberAccepts M values m := by
    constructor
    · rintro ⟨hpresent, hrequired⟩
      rw [hmn.name_eq] at hpresent hrequired
      exact ⟨fun v hv => (hmn.type.accepts M v).1 (hpresent v hv), hmn.optional_eq ▸ hrequired⟩
    · rintro ⟨hpresent, hrequired⟩
      rw [← hmn.name_eq] at hpresent hrequired
      exact ⟨fun v hv => (hmn.type.accepts M v).2 (hpresent v hv), hmn.optional_eq ▸ hrequired⟩
  rw [accepts_object, accepts_object]
  refine exists_congr fun values =>
    and_congr_right fun _ => ⟨fun hall m hm => ?_, fun hall n hn => ?_⟩
  · obtain ⟨n, hn, hmn⟩ := exists_of_mem_left h hm
    exact (hmember hmn values).1 (hall n hn)
  · obtain ⟨m, hm, hmn⟩ := exists_of_mem_right h hn
    exact (hmember hmn values).2 (hall m hm)

theorem readAs_object (h : List.Forall₂ (Member.ReadAs known) ms ns) :
    (TypeExpr.object ms).ReadAs known whole (.object ns) := by
  obtain ⟨rs, hrs, htokens⟩ := Option.map_eq_some_iff.1 (tokensOfMembers_of_readAs h)
  refine ⟨.object fun m hm => ?_, ?_, .object ?_, accepts_object_of_readAs h⟩
  · obtain ⟨n, -, hmn⟩ := exists_of_mem_left h hm
    exact hmn.type.legible
  · simp only [TypeExpr.reread?, hrs, Option.map_some, TypeExpr.tokens, htokens]
  · exact forall₂_right h fun m _ n hmn => hmn.type.wellFormed

/-! ## Declarations that are read -/

/-- The declaration is read as one of a type that admits the same. -/
def Statement.MeansAs (known : String → Prop) (s t : Statement) : Prop :=
  s.ReadAs known t ∧ ∀ M v, t.type.Accepts M v ↔ s.type.Accepts M v

theorem meansAs_typeAlias {name : String} (hname : IsTypeName name) (h : e.ReadAs known true f) :
    (Statement.typeAlias name e).MeansAs known (.typeAlias name f) := by
  obtain ⟨r, hr, htokens⟩ := Option.map_eq_some_iff.1 h.tokens
  refine ⟨⟨.typeAlias hname h.legible, ?_, .typeAlias hname h.wellFormed, rfl⟩, h.accepts⟩
  simp only [Statement.reread?, hr, Option.map_some, Statement.tokens, htokens]

theorem meansAs_interface {name : String} (hname : IsTypeName name)
    (h : List.Forall₂ (Member.ReadAs known) ms ns) :
    (Statement.interface name ms).MeansAs known (.interface name ns) := by
  obtain ⟨rs, hrs, htokens⟩ := Option.map_eq_some_iff.1 (tokensOfMembers_of_readAs h)
  refine ⟨⟨.interface hname fun m hm => ?_, ?_, .interface hname ?_, rfl⟩,
    accepts_object_of_readAs h⟩
  · obtain ⟨n, -, hmn⟩ := exists_of_mem_left h hm
    exact hmn.type.legible
  · simp only [Statement.reread?, hrs, Option.map_some, Statement.tokens, htokens]
  · exact forall₂_right h fun m _ n hmn => hmn.type.wellFormed

/-! ## Names that are declared -/

/-- In the graph the name is declared as a type that admits what the expression admits. -/
def DeclaredAs (k : TypeGraph) (name : String) (e : TypeExpr) : Prop :=
  ∃ s id target, Defined k s id target ∧ s.name = name ∧ ∀ M v, s.type.Accepts M v ↔ e.Accepts M v

theorem DeclaredAs.exists_lookup {k : TypeGraph} {name : String} {e : TypeExpr}
    (h : DeclaredAs k name e) : ∃ node, k.lookup name = some node := by
  obtain ⟨s, id, target, hdefined, rfl, -⟩ := h
  exact ⟨id, hdefined.lookup⟩

theorem DeclaredAs.conforms_iff {k : TypeGraph} {name : String} {e : TypeExpr} {node : TypeId}
    (h : DeclaredAs k name e) (hnode : k.lookup name = some node) :
    Conforms k node v ↔ e.Accepts (Declared k) v := by
  obtain ⟨s, id, target, hdefined, rfl, haccepts⟩ := h
  obtain rfl := Option.some.inj (hnode.symm.trans hdefined.lookup)
  rw [hdefined.conforms_iff, haccepts]

/-- The lines declare a name as a type that admits what the type of the declaration admits. -/
def Declares (known : String → Prop) (lines : List String) (s : Statement) : Prop :=
  ∃ t, Lexes (lineChars lines) (some t.tokens) ∧ s.MeansAs known t

theorem Statement.MeansAs.declares {known : String → Prop} {s t : Statement}
    (h : s.MeansAs known t) :
    Declares known s.lines s := ⟨t, h.1.lexes, h⟩

/-- **Lines that declare different names** declare these in the graph that is read from them. -/
theorem exists_declaredAs_of_lines {known : String → Prop} {pieces : List (List String × Statement)}
    (h : ∀ piece ∈ pieces, Declares known piece.1 piece.2)
    (hnames : (pieces.map fun piece => piece.2.name).Nodup) :
    ∃ k, parseDeclarations (Emit.textOf (pieces.flatMap Prod.fst)) = .ok k ∧ k.Sound ∧
      ∀ piece ∈ pieces, DeclaredAs k piece.2.name piece.2.type := by
  have : Nonempty Statement := ⟨.typeAlias "" .unknown⟩
  choose! t hlexes ht using h
  have hparse := parseDeclarations_flatMap hlexes fun piece hpiece => (ht piece hpiece).1.wellFormed
  have hsame : (pieces.map t).map Statement.name = pieces.map fun piece => piece.2.name := by
    rw [List.map_map]
    exact List.map_congr_left fun piece hpiece => (ht piece hpiece).1.name_eq
  obtain ⟨hgrown, hdefined, -⟩ := graphOf_spec
    (List.forall_mem_map.2 fun piece hpiece => (ht piece hpiece).1.wellFormed) (hsame ▸ hnames)
  refine ⟨_, hparse, hgrown.toSound, fun piece hpiece => ?_⟩
  obtain ⟨node, target, hnode⟩ := hdefined (t piece) (List.mem_map_of_mem hpiece)
  exact ⟨t piece, node, target, hnode, (ht piece hpiece).1.name_eq, (ht piece hpiece).2⟩

end TypedClient.Declaration
