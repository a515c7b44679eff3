import TypedClient.Proofs.Declaration.Expressions
import TypedClient.Proofs.Declaration.Placement
import TypedClient.Proofs.Json.Agreement

/-!
# The nodes that stand for what was written

Types are written as declarations and read back into a graph whose nodes are others, made in another
order.  Every node of the one graph corresponds to nodes of the other that stand for its expression
(`Stands`), and that correspondence is a bisimulation as long as the graph uses the forms that the
text can tell apart (`Canonical`).

* `kindsMatch_of_placed` is the step from a node to its children;
* `bisimulation_stands` is the correspondence of all nodes.
-/

set_option autoImplicit false

namespace TypedClient.Declaration

open TypedClient.Types

/-! ## Canonical graphs -/

/-- The values of an enumeration that is read back as one: scalars, of which one is not null, and
numbers that their texts read as. -/
structure CanonicalValues (values : List Json) : Prop where
  /-- There are no lists and objects. -/
  scalar : ∀ value ∈ values, value = .null ∨ IsLiteral value
  /-- Null is not all there is. -/
  notNull : ∃ value ∈ values, value ≠ .null
  /-- The text of a number reads as the number. -/
  numbers : ∀ n, .number n ∈ values → ∃ m, rereadNumber? n = some m ∧ n.agrees m = true

/-- A shape that is read back as it was.  A union of one member is an alias, which only a named node
can be, and only of a named node. -/
def CanonicalKind (g : TypeGraph) (named : Bool) : TypeKind → Prop
  | .enumeration values => CanonicalValues values
  | .union members =>
    2 ≤ members.length ∨ named = true ∧ ∃ member, members = [member] ∧ g.nameOf member ≠ none
  | _ => True

/-- A node of a canonical graph. -/
def Canonical (g : TypeGraph) (id : TypeId) : Prop :=
  CanonicalKind g (g.nameOf id).isSome (g.kind id)

variable {g h : TypeGraph} {nodes : TypeId → Prop} {a b : TypeId}

/-- The node `b` of the graph that was read stands for the node `a` of the one that was written. -/
structure Stands (g h : TypeGraph) (nodes : TypeId → Prop) (a b : TypeId) : Prop where
  /-- The node was written. -/
  mem : nodes a
  /-- The other node stands for what it was written as. -/
  placed : ∃ e, (expr g faithful a).reread? = some e ∧ Placed h e b

/-! ## From a node to its children -/

theorem declaredKind_of_isAnonymous {id : TypeId} {kind : TypeKind} (hid : IsAnonymous h id kind) :
    declaredKind h id = kind := by
  rw [declaredKind, hid.nameOf, hid.kind]
  rfl

/-- Parentheses do not matter for what an expression stands for. -/
theorem placed_grouped {e e' : TypeExpr} {grouped : Bool}
    (hreread : (if grouped then TypeExpr.group e else e).reread? = some e')
    (hplaced : Placed h e' b) :
    ∃ inner, e.reread? = some inner ∧ Placed h inner b := by
  cases grouped with
  | false => exact ⟨e', hreread, hplaced⟩
  | true =>
    obtain ⟨inner, hinner, rfl⟩ := Option.map_eq_some_iff.1 hreread
    cases hplaced with
    | group hplaced => exact ⟨inner, hinner, hplaced⟩

/-- The fields of an object type. -/
theorem fieldsMatch_of_placed {fields : List Field} (hfields : ∀ field ∈ fields, nodes field.type)
    {members : List (Member TypeExpr)} {ids : List TypeId}
    (hreread : List.Forall₂ Rereads (membersOf faithful (expr g faithful) fields) members)
    (hlength : members.length = ids.length)
    (hplaced : ∀ p ∈ members.zip ids, Placed h p.1.type p.2) :
    List.Forall₂ (FieldsMatch (Stands g h nodes)) fields (fieldsOf members ids) := by
  induction fields generalizing members ids with
  | nil =>
    cases hreread
    rw [List.eq_nil_of_length_eq_zero hlength.symm]
    exact .nil
  | cons field fields ih =>
    rw [membersOf, List.map_cons] at hreread
    cases hreread with
    | @cons _ member _ members hmember hmembers =>
      cases ids with
      | nil => cases hlength
      | cons id ids =>
        obtain ⟨hname, hoptional, htype⟩ := hmember
        have hfirst := hplaced (member, id) List.mem_cons_self
        refine .cons ⟨hname.symm, ?_, hfields field List.mem_cons_self, member.type, htype,
          hfirst⟩ ?_
        · simp [hoptional, faithful]
        · refine ih (fun f hf => hfields f (List.mem_cons_of_mem _ hf)) hmembers
            (Nat.succ.inj hlength) fun p hp => hplaced p (List.mem_cons_of_mem _ hp)

/-- The members of a union. -/
theorem membersMatch_of_placed {members : List TypeId} (hmembers : ∀ member ∈ members, nodes member)
    {es : List TypeExpr} {ids : List TypeId}
    (hreread : List.Forall₂ (fun e f => e.reread? = some f) (members.map (asMember g)) es)
    (hlength : es.length = ids.length) (hplaced : ∀ p ∈ es.zip ids, Placed h p.1 p.2) :
    List.Forall₂ (Stands g h nodes) members ids := by
  induction members generalizing es ids with
  | nil =>
    cases hreread
    rw [List.eq_nil_of_length_eq_zero hlength.symm]
    exact .nil
  | cons member members ih =>
    rw [List.map_cons] at hreread
    cases hreread with
    | @cons _ e _ es hfirst hrest =>
      match ids, hlength with
      | id :: ids, hlength =>
        refine .cons ⟨hmembers member List.mem_cons_self, ?_⟩ ?_
        · exact placed_grouped hfirst (hplaced (e, id) List.mem_cons_self)
        · refine ih (fun m hm => hmembers m (List.mem_cons_of_mem _ hm)) hrest
            (Nat.succ.inj hlength) fun p hp => hplaced p (List.mem_cons_of_mem _ hp)

/-! ## Enumerations -/

/-- Whether a member of a union is a literal. -/
def IsLiteralExpr (e : TypeExpr) : Prop := ∃ value, e = .literal value

theorem enumerationValues?_of_literal {es : List TypeExpr} (h : ∃ e ∈ es, IsLiteralExpr e) :
    enumerationValues? es = es.mapM literalValue? := by
  rw [enumerationValues?, if_pos]
  obtain ⟨e, he, value, rfl⟩ := h
  exact List.any_eq_true.2 ⟨_, he, rfl⟩

theorem enumerationValues?_of_no_literal {es : List TypeExpr} (h : ∀ e ∈ es, ¬IsLiteralExpr e) :
    enumerationValues? es = none := by
  rw [enumerationValues?, if_neg]
  rintro hany
  obtain ⟨e, he, hliteral⟩ := List.any_eq_true.1 hany
  cases e with
  | literal value => exact h _ he ⟨value, rfl⟩
  | _ => cases hliteral

/-- A value of a canonical enumeration is read back. -/
theorem literalValue?_reread {value : Json} (hscalar : value = .null ∨ IsLiteral value)
    (hnumber : ∀ n, value = .number n → ∃ m, rereadNumber? n = some m ∧ n.agrees m = true)
    {e : TypeExpr} (hreread : (literalExpr value).reread? = some e) :
    ∃ other, literalValue? e = some other ∧ value.agrees other = true ∧
      (value ≠ .null → e = .literal other) := by
  rcases hscalar with rfl | hliteral
  · cases hreread
    exact ⟨.null, rfl, rfl, fun h => absurd rfl h⟩
  cases hliteral with
  | string s =>
    cases hreread
    exact ⟨.string s, rfl, BEq.rfl, fun _ => rfl⟩
  | bool b =>
    cases hreread
    exact ⟨.bool b, rfl, BEq.rfl, fun _ => rfl⟩
  | number n =>
    obtain ⟨m, hm, hagrees⟩ := hnumber n rfl
    simp only [literalExpr, TypeExpr.reread?, rereadLiteral?, hm, Option.map_some,
      Option.some.injEq] at hreread
    subst hreread
    exact ⟨.number m, rfl, hagrees, fun _ => rfl⟩

theorem valuesMatch_of_reread {values : List Json}
    (hscalar : ∀ value ∈ values, value = .null ∨ IsLiteral value)
    (hnumbers : ∀ n, .number n ∈ values → ∃ m, rereadNumber? n = some m ∧ n.agrees m = true)
    {es : List TypeExpr}
    (hreread : List.Forall₂ (fun e f => e.reread? = some f) (values.map literalExpr) es) :
    ∃ others, es.mapM literalValue? = some others ∧ Json.agreesItems values others = true ∧
      ((∃ value ∈ values, value ≠ .null) → ∃ e ∈ es, IsLiteralExpr e) := by
  induction values generalizing es with
  | nil =>
    cases hreread
    exact ⟨[], rfl, rfl, by simp⟩
  | cons value values ih =>
    rw [List.map_cons] at hreread
    cases hreread with
    | @cons _ e _ es hfirst hrest =>
      obtain ⟨other, hother, hagrees, hliteral⟩ := literalValue?_reread
        (hscalar value List.mem_cons_self) (fun n hn => hnumbers n (hn ▸ List.mem_cons_self)) hfirst
      obtain ⟨others, hothers, hall, hlater⟩ := ih
        (fun v hv => hscalar v (List.mem_cons_of_mem _ hv))
        (fun n hn => hnumbers n (List.mem_cons_of_mem _ hn)) hrest
      refine ⟨other :: others, ?_, ?_, fun ⟨v, hv, hnull⟩ => ?_⟩
      · rw [List.mapM_cons, hother, hothers]
        rfl
      · rw [Json.agreesItems, hagrees, hall]
        rfl
      · rcases List.mem_cons.1 hv with rfl | hv
        · exact ⟨e, List.mem_cons_self, other, hliteral hnull⟩
        · obtain ⟨f, hf, hlit⟩ := hlater ⟨v, hv, hnull⟩
          exact ⟨f, List.mem_cons_of_mem _ hf, hlit⟩

/-! ## All shapes -/

/-- What is known of a node that stands for a shape. -/
structure KindStands (g h : TypeGraph) (nodes : TypeId → Prop) (named : Bool) (kind : TypeKind)
    (target : TypeId) : Prop where
  /-- What a name would be given for it matches the shape. -/
  shape : KindsMatch (Stands g h nodes) kind (declaredKind h target)
  /-- It is anonymous, unless it stands for an alias. -/
  anonymous : named = false → h.nameOf target = none

theorem KindStands.of_anonymous {named : Bool} {kind other : TypeKind} {target : TypeId}
    (htarget : IsAnonymous h target other) (hmatch : KindsMatch (Stands g h nodes) kind other) :
    KindStands g h nodes named kind target :=
  ⟨(declaredKind_of_isAnonymous htarget).symm ▸ hmatch, fun _ => htarget.nameOf⟩

/-- No member of a union is written as a literal without parentheses. -/
theorem asMember_ne_literal (hg : Descends g) {depth : Nat} {member : TypeId}
    (hdepth : g.DepthAtMost depth member) (hlt : member < g.size) (value : Json) :
    asMember g member ≠ .literal value := by
  induction hdepth with
  | @named _ id hname =>
    obtain ⟨name, hname⟩ := Option.ne_none_iff_exists'.1 hname
    rw [asMember, expr_of_named hname]
    split <;> exact TypeExpr.noConfusion
  | @anonymous _ id _ ih =>
    intro hvalue
    rw [asMember] at hvalue
    split at hvalue
    · cases hvalue
    rename_i hgrouped
    cases hname : g.nameOf id with
    | some name =>
      rw [expr_of_named hname] at hvalue
      cases hvalue
    | none =>
      rw [kindExpr.isEnumOrUnion, hname, Option.isNone_none, Bool.true_and] at hgrouped
      rw [expr_of_anonymous hg hlt hname] at hvalue
      cases hkind : g.kind id with
      | enumeration values =>
        rw [hkind] at hgrouped
        exact hgrouped rfl
      | union members =>
        rw [hkind, kindExpr_union] at hvalue
        rw [hkind] at hgrouped
        rcases members with _ | ⟨single, _ | ⟨second, rest⟩⟩
        · cases hvalue
        · have hmem : single ∈ (g.kind id).references := by
            rw [hkind]
            exact List.mem_singleton_self _
          exact ih single hmem (hg.references id hlt single hmem) hvalue
        · exact hgrouped (by simp)
      | _ =>
        rw [hkind] at hvalue
        cases hvalue

theorem not_isLiteralExpr_asMember (hg : Descends g) {member : TypeId} (hlt : member < g.size)
    {e : TypeExpr} (hreread : (asMember g member).reread? = some e) : ¬IsLiteralExpr e := by
  rintro ⟨value, rfl⟩
  cases hmember : asMember g member with
  | literal value => exact asMember_ne_literal hg (hg.depth hlt) hlt value hmember
  | unknown | primitive | name => rw [hmember] at hreread; cases hreread
  | array | record | object | union | group | noted =>
    rw [hmember] at hreread
    obtain ⟨_, _, hcontra⟩ := Option.map_eq_some_iff.1 hreread
    cases hcontra

/-- A node that stands for what a canonical enumeration was written as is an enumeration of its
values. -/
theorem kindStands_enumeration {named : Bool} {values : List Json} (hkind : CanonicalValues values)
    {e : TypeExpr} {target : TypeId}
    (hreread : (oneOrUnion (values.map literalExpr)).reread? = some e)
    (hplaced : Placed h e target) : KindStands g h nodes named (.enumeration values) target := by
  obtain ⟨hscalar, hnotNull, hnumbers⟩ := hkind
  match values with
  | [] => exact absurd hnotNull (by simp)
  | [value] =>
    obtain ⟨other, hother, hagrees, hliteral⟩ := literalValue?_reread
      (hscalar value List.mem_cons_self) (fun n hn => hnumbers n (hn ▸ List.mem_cons_self)) hreread
    obtain rfl := hliteral (by simpa using hnotNull)
    cases hplaced with
    | literal htarget =>
      refine .of_anonymous htarget (.enumeration ?_)
      rw [Json.agreesItems, hagrees]
      rfl
  | first :: second :: rest =>
    obtain ⟨es, hes, rfl⟩ := Option.map_eq_some_iff.1 hreread
    obtain ⟨others, hothers, hagrees, hliteral⟩ :=
      valuesMatch_of_reread hscalar hnumbers (rereadAll?_eq_some hes)
    have hvalues := enumerationValues?_of_literal (hliteral hnotNull)
    rw [hothers] at hvalues
    cases hplaced with
    | enumeration hsome htarget =>
      obtain rfl := Option.some.inj (hvalues.symm.trans hsome)
      exact .of_anonymous htarget (.enumeration hagrees)
    | union hnone _ _ _ => exact absurd (hvalues.symm.trans hnone) (Option.some_ne_none _)

/-- A node that stands for what a union of several members was written as is a union of nodes that
stand for the members. -/
theorem kindStands_union (hg : Descends g) {named : Bool} {members : List TypeId}
    (hlength : 2 ≤ members.length) (hmembers : ∀ member ∈ members, nodes member)
    (hlt : ∀ member ∈ members, member < g.size) {e : TypeExpr} {target : TypeId}
    (hreread : (oneOrUnion (members.map (asMember g))).reread? = some e)
    (hplaced : Placed h e target) : KindStands g h nodes named (.union members) target := by
  obtain ⟨first, second, rest, rfl⟩ : ∃ x y l, members = x :: y :: l := by
    match members, hlength with
    | x :: y :: l, _ => exact ⟨x, y, l, rfl⟩
  obtain ⟨es, hes, rfl⟩ := Option.map_eq_some_iff.1 hreread
  have hall : List.Forall₂ _ ((first :: second :: rest).map (asMember g)) es :=
    rereadAll?_eq_some hes
  have hnone := enumerationValues?_of_no_literal (forall₂_right hall fun x hx y hy => by
    obtain ⟨member, hmember, rfl⟩ := List.mem_map.1 hx
    exact not_isLiteralExpr_asMember hg (hlt member hmember) hy)
  cases hplaced with
  | enumeration hsome _ => exact absurd (hsome.symm.trans hnone) (Option.some_ne_none _)
  | union _ htarget hlength hplaced =>
    exact .of_anonymous htarget (.union (membersMatch_of_placed hmembers hall hlength hplaced))

/-- What an alias of a named node was written as is the name, and the name stands for one node. -/
theorem kindStands_alias (hh : h.Sound) {member : TypeId} (hmember : nodes member)
    (hname : g.nameOf member ≠ none) {e : TypeExpr} {target : TypeId}
    (hreread : (asMember g member).reread? = some e) (hplaced : Placed h e target) :
    KindStands g h nodes true (.union [member]) target := by
  obtain ⟨name, hname⟩ := Option.ne_none_iff_exists'.1 hname
  obtain ⟨inner, hinner, hstands⟩ := placed_grouped hreread hplaced
  obtain rfl : .name name = inner := by
    rw [expr_of_named hname] at hinner
    exact Option.some.inj hinner
  cases hstands with
  | name htarget =>
    have hdeclared : declaredKind h target = .union [target] := by
      rw [declaredKind, hh.nameOf_of_lookup htarget]
      rfl
    refine ⟨?_, fun hnamed => by cases hnamed⟩
    rw [hdeclared]
    exact .union (.cons ⟨hmember, _, hinner, .name htarget⟩ .nil)

/-- **From a node to its children**: a node that stands for what a canonical shape was written as
has that shape, and its children stand for the children. -/
theorem kindsMatch_of_placed (hg : Descends g) (hnodes : ∀ id, nodes id → id < g.size)
    {named : Bool} {kind : TypeKind}
    (hkind : CanonicalKind g named kind) (hchildren : ∀ child ∈ kind.references, nodes child)
    (hh : h.Sound) {e : TypeExpr} {target : TypeId}
    (hreread : (kindExpr g faithful (expr g faithful) kind).reread? = some e)
    (hplaced : Placed h e target) : KindStands g h nodes named kind target := by
  cases kind with
  | unknown =>
    cases hreread
    cases hplaced with
    | unknown htarget => exact .of_anonymous htarget .unknown
  | primitive p =>
    cases hreread
    cases hplaced with
    | primitive htarget => exact .of_anonymous htarget (.primitive p)
  | map value =>
    obtain ⟨inner, hinner, rfl⟩ := Option.map_eq_some_iff.1 hreread
    cases hplaced with
    | record htarget hplaced =>
      have hvalue := hchildren value (List.mem_singleton_self _)
      exact .of_anonymous htarget (.map ⟨hvalue, inner, hinner, hplaced⟩)
  | array item =>
    obtain ⟨inner, hinner, rfl⟩ := Option.map_eq_some_iff.1 hreread
    cases hplaced with
    | array htarget hplaced =>
      have hitem := hchildren item (List.mem_singleton_self _)
      exact .of_anonymous htarget (.array ⟨hitem, placed_grouped hinner hplaced⟩)
  | object fields =>
    obtain ⟨members, hmembers, rfl⟩ := Option.map_eq_some_iff.1 hreread
    cases hplaced with
    | object htarget hlength hplaced =>
      refine .of_anonymous htarget (.object ?_)
      exact fieldsMatch_of_placed (fun f hf => hchildren _ (List.mem_map_of_mem hf))
        (rereadMembers?_eq_some hmembers) hlength hplaced
  | enumeration values => exact kindStands_enumeration hkind hreread hplaced
  | union members =>
    rw [kindExpr_union] at hreread
    rcases hkind with hlength | ⟨rfl, member, rfl, hmember⟩
    · exact kindStands_union hg hlength hchildren (fun m hm => hnodes m (hchildren m hm)) hreread
        hplaced
    · exact kindStands_alias hh (hchildren member (List.mem_singleton_self _)) hmember hreread
        hplaced

/-- The graph `h` holds what the declarations of the named nodes of `g` leave behind. -/
structure Recovers (g h : TypeGraph) (nodes : TypeId → Prop) : Prop where
  /-- The graph is in order. -/
  sound : h.Sound
  /-- Every declaration has been read. -/
  defined : ∀ {id name}, nodes id → g.nameOf id = some name →
    ∃ s t node target, statement? g faithful id = some s ∧ s.reread? = some t ∧
      Defined h t node target

theorem Statement.name_of_reread {s t : Statement} (h : s.reread? = some t) : t.name = s.name := by
  cases s <;>
  · obtain ⟨_, _, rfl⟩ := Option.map_eq_some_iff.1 h
    rfl

theorem Statement.type_of_reread {s t : Statement} (h : s.reread? = some t) :
    s.type.reread? = some t.type := by
  cases s with
  | interface name members =>
    obtain ⟨members, hmembers, rfl⟩ := Option.map_eq_some_iff.1 h
    simp only [Statement.type, TypeExpr.reread?, hmembers, Option.map_some]
  | typeAlias name type =>
    obtain ⟨type, htype, rfl⟩ := Option.map_eq_some_iff.1 h
    exact htype

/-- The type that a named node is declared as. -/
theorem type_of_statement? {style : Style} {id : TypeId} {s : Statement}
    (hs : statement? g style id = some s) :
    g.nameOf id = some s.name ∧ s.type = kindExpr g style (expr g style) (g.kind id) := by
  obtain ⟨name, hname, rfl⟩ := Option.map_eq_some_iff.1 hs
  cases hkind : g.kind id <;> exact ⟨hname, rfl⟩

/-- A node that stands for another: what the other was written as, and the node of `h` that was made
for that. -/
structure Target (g h : TypeGraph) (a b : TypeId) (e : TypeExpr) (target : TypeId) : Prop where
  /-- The expression for the shape has been read. -/
  reread : (kindExpr g faithful (expr g faithful) (g.kind a)).reread? = some e
  /-- The target stands for it. -/
  placed : Placed h e target
  /-- For an anonymous node it is the node itself. -/
  anonymous : g.nameOf a = none → target = b
  /-- For a named node it is what the name was declared as. -/
  named : g.nameOf a ≠ none → g.nameOf a = h.nameOf b ∧ h.kind b = declaredKind h target

theorem Stands.target (hg : Descends g) (hnodes : ∀ id, nodes id → id < g.size)
    (hrecovers : Recovers g h nodes) (hab : Stands g h nodes a b) :
    ∃ e target, Target g h a b e target := by
  obtain ⟨hmem, e, hreread, hplaced⟩ := hab
  cases hname : g.nameOf a with
  | none =>
    rw [expr_of_anonymous hg (hnodes a hmem) hname] at hreread
    exact ⟨e, b, hreread, hplaced, fun _ => rfl, fun h => absurd hname h⟩
  | some name =>
    rw [expr_of_named hname] at hreread
    cases hreread
    cases hplaced with
    | name hb =>
      obtain ⟨s, t, node, target, hs, ht, hdefined⟩ := hrecovers.defined hmem hname
      obtain ⟨hsname, hstype⟩ := type_of_statement? hs
      have hnode := hdefined.lookup
      rw [Statement.name_of_reread ht, ← Option.some.inj (hname.symm.trans hsname), hb] at hnode
      cases hnode
      have htype := Statement.type_of_reread ht
      rw [hstype] at htype
      refine ⟨t.type, target, htype, hdefined.placed, fun h => ?_, fun _ => ⟨?_, hdefined.kind⟩⟩
      · rw [hname] at h
        cases h
      · rw [hname, hrecovers.sound.nameOf_of_lookup hb]

/-- A node that stands for a canonical one has its name and its shape. -/
theorem Stands.kindsMatch (hg : Descends g) (hnodes : ∀ id, nodes id → id < g.size)
    (hclosed : ReferencesStay g nodes) (hrecovers : Recovers g h nodes) (hab : Stands g h nodes a b)
    (hcanonical : Canonical g a) :
    g.nameOf a = h.nameOf b ∧ KindsMatch (Stands g h nodes) (g.kind a) (h.kind b) := by
  obtain ⟨e, target, htarget⟩ := hab.target hg hnodes hrecovers
  obtain ⟨hmatch, hnone⟩ := kindsMatch_of_placed hg hnodes hcanonical (hclosed a hab.mem)
    hrecovers.sound htarget.reread htarget.placed
  by_cases hname : g.nameOf a = none
  · obtain rfl := htarget.anonymous hname
    have hb := hnone (by rw [hname]; rfl)
    rw [declaredKind, hb] at hmatch
    exact ⟨hname.trans hb.symm, hmatch⟩
  · obtain ⟨hsame, hdeclared⟩ := htarget.named hname
    rw [hdeclared]
    exact ⟨hsame, hmatch⟩

/-- **Corresponding nodes are bisimilar.** -/
theorem bisimulation_stands (hg : Descends g) (hnodes : ∀ id, nodes id → id < g.size)
    (hcanonical : ∀ id, nodes id → Canonical g id) (hclosed : ReferencesStay g nodes)
    (hrecovers : Recovers g h nodes) : Bisimulation g h (Stands g h nodes) := by
  have hstep {a b : TypeId} (hab : Stands g h nodes a b) :=
    hab.kindsMatch hg hnodes hclosed hrecovers (hcanonical a hab.mem)
  refine ⟨fun {a b} hab => ⟨hnodes a hab.mem, ?_⟩, fun hab => (hstep hab).1,
    fun hab => (hstep hab).2⟩
  obtain ⟨e, -, hplaced⟩ := hab.placed
  exact hplaced.lt hrecovers.sound

end TypedClient.Declaration
