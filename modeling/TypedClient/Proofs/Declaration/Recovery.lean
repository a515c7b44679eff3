import TypedClient.Proofs.Declaration.Declarable

/-!
# What is recovered can be told apart

Declarations among others cover a graph if the types in use have forms that the text can tell apart.
This is also necessary (`covers_graphOf_iff`): what is read is an enumeration only if all values
were scalars and one was not null, and a union of one member only if a name was declared as another
name.  So a type that is found again has such a form, and so have the types it is made of.
-/

set_option autoImplicit false

namespace TypedClient.Declaration

open TypedClient.Types

variable {g h : TypeGraph} {a b target : TypeId} {e : TypeExpr}

/-! ## Values -/

/-- Whether a value may stand in a canonical enumeration: a scalar, and a number only if its text is
read as the number. -/
structure CanonicalValue (value : Json) : Prop where
  /-- It is no list and no object. -/
  scalar : value = .null ∨ IsLiteral value
  /-- The text of a number reads as the number. -/
  number : ∀ n, value = .number n → ∃ m, rereadNumber? n = some m ∧ n.agrees m = true

/-- A value that is read back as a value is canonical. -/
theorem canonicalValue_of_literalValue? {value other : Json}
    (hreread : (literalExpr value).reread? = some e) (hother : literalValue? e = some other)
    (hagrees : value.agrees other = true) : CanonicalValue value := by
  cases value with
  | array | object =>
    cases hreread
    cases hother
  | null => exact ⟨.inl rfl, fun _ h => nomatch h⟩
  | bool b => exact ⟨.inr (.bool b), fun _ h => nomatch h⟩
  | string s => exact ⟨.inr (.string s), fun _ h => nomatch h⟩
  | number n =>
    refine ⟨.inr (.number n), fun k hk => ?_⟩
    cases hk
    obtain ⟨literal, hliteral, rfl⟩ := Option.map_eq_some_iff.1 hreread
    obtain ⟨m, hm, rfl⟩ := Option.map_eq_some_iff.1 hliteral
    cases hother
    exact ⟨m, hm, hagrees⟩

/-- Null is not read as a literal. -/
theorem ne_null_of_isLiteralExpr {value : Json} (hreread : (literalExpr value).reread? = some e)
    (he : IsLiteralExpr e) : value ≠ .null := by
  rintro rfl
  obtain ⟨literal, rfl⟩ := he
  cases hreread

theorem canonicalValues_of_reread {values others : List Json} {es : List TypeExpr}
    (hreread : List.Forall₂ (fun e f => e.reread? = some f) (values.map literalExpr) es)
    (hothers : es.mapM literalValue? = some others)
    (hagrees : Json.agreesItems values others = true) : (∀ value ∈ values, CanonicalValue value) ∧
      ((∃ e ∈ es, IsLiteralExpr e) → ∃ value ∈ values, value ≠ .null) := by
  induction values generalizing es others with
  | nil =>
    cases hreread
    exact ⟨List.forall_mem_nil _, by simp⟩
  | cons value values ih =>
    rw [List.map_cons] at hreread
    cases hreread with
    | @cons _ e _ es hfirst hrest =>
      rw [List.mapM_cons] at hothers
      obtain ⟨other, hother, hothers⟩ := Option.bind_eq_some_iff.1 hothers
      obtain ⟨rest, hmapped, hrestOthers⟩ := Option.bind_eq_some_iff.1 hothers
      cases hrestOthers
      rw [Json.agreesItems, Bool.and_eq_true] at hagrees
      obtain ⟨hvalues, hnotNull⟩ := ih hrest hmapped hagrees.2
      refine ⟨List.forall_mem_cons.2
        ⟨canonicalValue_of_literalValue? hfirst hother hagrees.1, hvalues⟩, ?_⟩
      rintro ⟨f, hf, hliteral⟩
      rcases List.mem_cons.1 hf with rfl | hf
      · exact ⟨value, List.mem_cons_self, ne_null_of_isLiteralExpr hfirst hliteral⟩
      · obtain ⟨v, hv, hne⟩ := hnotNull ⟨f, hf, hliteral⟩
        exact ⟨v, List.mem_cons_of_mem _ hv, hne⟩

theorem CanonicalValues.of_forall {values : List Json} (h : ∀ value ∈ values, CanonicalValue value)
    (hnotNull : ∃ value ∈ values, value ≠ .null) : CanonicalValues values :=
  ⟨fun value hvalue => (h value hvalue).scalar, hnotNull,
    fun n hn => (h _ hn).number n rfl⟩

theorem canonicalValues_iff {values : List Json} : CanonicalValues values ↔
    (∀ value ∈ values, CanonicalValue value) ∧ ∃ value ∈ values, value.isNull = false := by
  have hnull (value : Json) : value ≠ .null ↔ value.isNull = false := by
    cases value <;> simp [Json.isNull]
  simp only [← hnull]
  exact ⟨fun h =>
    ⟨fun value hvalue => ⟨h.scalar value hvalue, fun n hn => h.numbers n (hn ▸ hvalue)⟩, h.notNull⟩,
    fun h => .of_forall h.1 h.2⟩

instance decidableCanonicalValue : (value : Json) → Decidable (CanonicalValue value)
  | .null => isTrue ⟨.inl rfl, fun _ h => nomatch h⟩
  | .bool b => isTrue ⟨.inr (.bool b), fun _ h => nomatch h⟩
  | .string s => isTrue ⟨.inr (.string s), fun _ h => nomatch h⟩
  | .number n =>
    decidable_of_iff ((rereadNumber? n).any n.agrees = true)
      ⟨fun h => ⟨.inr (.number n), fun k hk => by
          cases hk
          cases hm : rereadNumber? n with
          | none =>
            rw [hm] at h
            cases h
          | some m =>
            rw [hm] at h
            exact ⟨m, rfl, h⟩⟩,
        fun h => by
          obtain ⟨m, hm, hagrees⟩ := h.number n rfl
          rw [hm]
          exact hagrees⟩
  | .array _ => isFalse fun h => h.scalar.elim (fun h => nomatch h) fun h => nomatch h
  | .object _ => isFalse fun h => h.scalar.elim (fun h => nomatch h) fun h => nomatch h

instance (values : List Json) : Decidable (CanonicalValues values) :=
  decidable_of_iff _ canonicalValues_iff.symm

instance decidableCanonicalKind (g : TypeGraph) (named : Bool) :
    (kind : TypeKind) → Decidable (CanonicalKind g named kind)
  | .enumeration values => inferInstanceAs (Decidable (CanonicalValues values))
  | .union [member] =>
    decidable_of_iff (named = true ∧ (g.nameOf member).isSome = true)
      ⟨fun h => .inr ⟨h.1, member, rfl, Option.isSome_iff_ne_none.1 h.2⟩, fun h => by
        rcases h with h | ⟨hnamed, other, hother, hname⟩
        · simp at h
        · cases hother
          exact ⟨hnamed, Option.isSome_iff_ne_none.2 hname⟩⟩
  | .union [] => isFalse fun h => by
      rcases h with h | ⟨-, member, h, -⟩
      · exact absurd h (by decide)
      · cases h
  | .union (_ :: _ :: _) => isTrue (.inl (by simp))
  | .unknown | .primitive _ | .object _ | .map _ | .array _ => isTrue trivial

/-- Whether a value is read as one, as far as it is a number. -/
def readsNumber : Json → Bool
  | .number n => (rereadNumber? n).isSome
  | _ => true

instance : (kind : TypeKind) → Decidable (NumbersRead kind)
  | .enumeration values =>
    decidable_of_iff (∀ value ∈ values, readsNumber value = true)
      ⟨fun h n hn => Option.isSome_iff_exists.1 (h _ hn), fun h value hvalue => by
        cases value with
        | number n => exact Option.isSome_iff_exists.2 (h n hvalue)
        | _ => rfl⟩
  | .unknown | .primitive _ | .object _ | .map _ | .array _ | .union _ => isTrue trivial

instance (g : TypeGraph) (id : TypeId) : Decidable (Canonical g id) :=
  decidableCanonicalKind g (g.nameOf id).isSome (g.kind id)

theorem mapM_of_enumerationValues? {es : List TypeExpr} {others : List Json}
    (h : enumerationValues? es = some others) :
    es.mapM literalValue? = some others ∧ ∃ e ∈ es, IsLiteralExpr e := by
  by_cases hliteral : ∃ e ∈ es, IsLiteralExpr e
  · rw [enumerationValues?_of_literal hliteral] at h
    exact ⟨h, hliteral⟩
  · rw [enumerationValues?_of_no_literal fun e he hlit => hliteral ⟨e, he, hlit⟩] at h
    cases h

/-! ## Shapes -/

/-- An enumeration that is read back has canonical values. -/
theorem canonicalValues_of_placed {values others : List Json} (hne : values ≠ [])
    (hreread : (oneOrUnion (values.map literalExpr)).reread? = some e) (hplaced : Placed h e target)
    (hkind : h.kind target = .enumeration others)
    (hagrees : Json.agreesItems values others = true) :
    CanonicalValues values := by
  match values, hne with
  | [value], _ =>
    have hreread : (literalExpr value).reread? = some e := hreread
    obtain ⟨literal, rfl⟩ : IsLiteralExpr e := by
      cases value with
      | array | object =>
        cases hreread
        cases hplaced with
        | unknown hid => exact absurd (hid.kind.symm.trans hkind) TypeKind.noConfusion
      | null =>
        cases hreread
        cases hplaced with
        | primitive hid => exact absurd (hid.kind.symm.trans hkind) TypeKind.noConfusion
      | bool | string => exact ⟨_, (Option.some.inj hreread).symm⟩
      | number =>
        obtain ⟨literal, -, rfl⟩ := Option.map_eq_some_iff.1 hreread
        exact ⟨literal, rfl⟩
    cases hplaced with
    | literal hid =>
      cases hid.kind.symm.trans hkind
      rw [Json.agreesItems, Bool.and_eq_true] at hagrees
      have hvalue := canonicalValue_of_literalValue? hreread rfl hagrees.1
      exact .of_forall (List.forall_mem_singleton.2 hvalue)
        ⟨value, List.mem_singleton_self _, ne_null_of_isLiteralExpr hreread ⟨literal, rfl⟩⟩
  | first :: second :: rest, _ =>
    obtain ⟨es, hes, rfl⟩ := Option.map_eq_some_iff.1 hreread
    cases hplaced with
    | enumeration hvalues hid =>
      cases hid.kind.symm.trans hkind
      obtain ⟨hmapped, hliteral⟩ := mapM_of_enumerationValues? hvalues
      have hreads : List.Forall₂ _ ((first :: second :: rest).map literalExpr) es :=
        rereadAll?_eq_some hes
      obtain ⟨hall, hnotNull⟩ := canonicalValues_of_reread hreads hmapped hagrees
      exact .of_forall hall (hnotNull hliteral)
    | union _ hid => exact absurd (hid.kind.symm.trans hkind) TypeKind.noConfusion

/-- Only a union of several members is read as a union. -/
theorem two_le_of_placed {whole : Bool} {known : String → Prop} (hwf : e.WellFormed known whole)
    (hh : h.Sound) (hplaced : Placed h e target) {ids : List TypeId}
    (htarget : IsAnonymous h target (.union ids)) : 2 ≤ ids.length := by
  induction hplaced generalizing whole with
  | name hid =>
    have hname := hh.nameOf_of_lookup hid
    rw [htarget.nameOf] at hname
    cases hname
  | unknown hid | primitive hid | literal hid | array hid | record hid | object hid
  | enumeration _ hid => exact absurd (hid.kind.symm.trans htarget.kind) TypeKind.noConfusion
  | union _ hid hlength =>
    cases hid.kind.symm.trans htarget.kind
    cases hwf with
    | union htwo => rwa [← hlength]
  | group _ ih =>
    cases hwf with
    | group hwf => exact ih hwf htarget

/-- **A shape that is read back is canonical.** -/
theorem canonicalKind_of_placed {named : Bool} {kind : TypeKind} {R : TypeId → TypeId → Prop}
    {known : String → Prop} (hoffers : kind.Offers)
    (hreread : (kindExpr g faithful (expr g faithful) kind).reread? = some e)
    (hwf : e.WellFormed known true) (hh : h.Sound) (hplaced : Placed h e target)
    (hanonymous : named = false → h.nameOf target = none)
    (hmatch : KindsMatch R kind (declaredKind h target))
    (hname : ∀ {a b}, R a b → g.nameOf a = h.nameOf b) : CanonicalKind g named kind := by
  have hcases : h.nameOf target = none ∧ declaredKind h target = h.kind target ∨
      h.nameOf target ≠ none ∧ declaredKind h target = .union [target] := by
    rw [declaredKind]
    cases h.nameOf target with
    | none => exact .inl ⟨rfl, rfl⟩
    | some name => exact .inr ⟨Option.some_ne_none _, rfl⟩
  generalize declaredKind h target = declared at hmatch hcases
  cases hmatch with
  | unknown | primitive | object | map | array => trivial
  | enumeration hagrees =>
    rcases hcases with ⟨-, hkind⟩ | ⟨-, hkind⟩
    · exact canonicalValues_of_placed hoffers hreread hplaced hkind.symm hagrees
    · cases hkind
  | @union members ids hmembers =>
    rcases hcases with ⟨hnone, hkind⟩ | ⟨hsome, hkind⟩
    · refine .inl ?_
      rw [hmembers.length_eq]
      exact two_le_of_placed hwf hh hplaced ⟨hplaced.lt hh, hnone, hkind.symm⟩
    · cases hkind
      cases hmembers with
      | @cons member _ _ _ hmember hnil =>
        cases hnil
        refine .inr ⟨?_, member, rfl, ?_⟩
        · cases named with
          | true => rfl
          | false => exact absurd (hanonymous rfl) hsome
        · rwa [hname hmember]

/-! ## Graphs -/

/-- Nodes that two relations match with the children of a node are matched by both at once. -/
theorem exists_both {R S : TypeId → TypeId → Prop} {k l : TypeKind} (hR : KindsMatch R k l)
    (hS : KindsMatch S k l) : ∀ child ∈ k.references, ∃ other, R child other ∧ S child other := by
  have hboth {α : Type} {P Q : α → α → Prop} {as bs : List α} (hP : List.Forall₂ P as bs)
      (hQ : List.Forall₂ Q as bs) : ∀ a ∈ as, ∃ b, P a b ∧ Q a b := by
    induction hP with
    | nil => exact List.forall_mem_nil _
    | @cons _ b _ _ hfirst _ ih =>
      cases hQ with
      | cons hfirst' hrest => exact List.forall_mem_cons.2 ⟨⟨b, hfirst, hfirst'⟩, ih hrest⟩
  cases hR with
  | unknown | primitive | enumeration => exact List.forall_mem_nil _
  | object hfields =>
    cases hS with
    | object hfields' =>
      intro child hchild
      obtain ⟨field, hfield, rfl⟩ := List.mem_map.1 hchild
      obtain ⟨other, hother, hother'⟩ := hboth hfields hfields' field hfield
      exact ⟨other.type, hother.type, hother'.type⟩
  | map h =>
    cases hS with
    | map h' => exact List.forall_mem_singleton.2 ⟨_, h, h'⟩
  | array h =>
    cases hS with
    | array h' => exact List.forall_mem_singleton.2 ⟨_, h, h'⟩
  | union hmembers =>
    cases hS with
    | union hmembers' => exact hboth hmembers hmembers'

theorem InUse.stays (g : TypeGraph) : ReferencesStay g (InUse g) :=
  fun _ h _ hchild => .reference h hchild

/-- A node that is found again is canonical. -/
theorem canonical_of_bisimilar (hg : Declarable g) (hrecovers : Recovers g h (InUse g))
    (hstands : Stands g h (InUse g) a b) (hbisimilar : Bisimilar g h a b) : Canonical g a := by
  have hdescends := Grown.descends hg.grown
  have ha := hstands.mem.lt hg.grown
  have hbisimulation := bisimulation_bisimilar g h
  have hname := hbisimulation.name hbisimilar
  have hmatch := hbisimulation.kind hbisimilar
  obtain ⟨e, target, htarget⟩ := hstands.target hdescends (fun _ hid => hid.lt hg.grown) hrecovers
  have hfits := fits_kindExpr (hg.offers a) fun child hchild =>
    fits_expr hdescends (fun _ => hg.writable) hg.grown.references
      (hg.grown.references a ha child hchild)
  have hwf := hfits.whole.reread htarget.reread
  refine canonicalKind_of_placed (hg.offers a) htarget.reread hwf hrecovers.sound htarget.placed
    (fun hanonymous => ?_) ?_ hbisimulation.name
  · have hnone : g.nameOf a = none :=
      Option.isSome_eq_false_iff.1 hanonymous |> Option.isNone_iff_eq_none.1
    rw [htarget.anonymous hnone, ← hname, hnone]
  · by_cases hnone : g.nameOf a = none
    · have hsame := htarget.anonymous hnone
      rw [hsame, declaredKind, ← hname, hnone]
      exact hmatch
    · rw [← (htarget.named hnone).2]
      exact hmatch

/-- **Declarations among others cover the graph just if** the types in use have forms that the text
can tell apart. -/
theorem covers_graphOf_iff (hg : Declarable g) {statements : List Statement}
    (hstatements : ∀ t ∈ statements, t.WellFormed fun _ => True)
    (hnames : (statements.map Statement.name).Nodup)
    (hall : ∀ id, g.nameOf id ≠ none →
      ∃ s, ∃ t ∈ statements, statement? g faithful id = some s ∧ s.reread? = some t) :
    g.covers (graphOf statements) = true ↔ ∀ id, InUse g id → Canonical g id := by
  have hdescends := Grown.descends hg.grown
  have hrecovers : Recovers g (graphOf statements) (InUse g) :=
    recovers_graphOf hstatements hnames hall
  have hlt : ∀ id, InUse g id → id < g.size := fun _ hid => hid.lt hg.grown
  refine ⟨fun hcovers => ?_, fun hcanonical => covers_of_recovers hg.grown.toSound hg.grown.acyclic
    hcanonical hlt (fun _ h => .named h) (InUse.stays g) hrecovers⟩
  suffices hfound : ∀ id, InUse g id → ∃ other, Stands g (graphOf statements) (InUse g) id other ∧
      Bisimilar g (graphOf statements) id other by
    intro id hid
    obtain ⟨other, hstands, hbisimilar⟩ := hfound id hid
    exact canonical_of_bisimilar hg hrecovers hstands hbisimilar
  intro id hid
  induction hid with
  | @named id hname =>
    obtain ⟨name, hname⟩ := Option.ne_none_iff_exists'.1 hname
    have hid := TypeGraph.lt_of_nameOf hname
    have hentry := List.all_eq_true.1 hcovers (name, id)
      (Dict.mem_of_get? (hg.grown.lookup_of_nameOf hid hname))
    dsimp only at hentry
    cases hlookup : (graphOf statements).lookup name with
    | none =>
      rw [hlookup] at hentry
      cases hentry
    | some other =>
      rw [hlookup] at hentry
      refine ⟨other, ⟨.named (by simp [hname]), .name name, ?_, .name hlookup⟩, ?_⟩
      · rw [expr_of_named hname]
        rfl
      · exact bisimilar_of_equivalent hg.grown.references hrecovers.sound.references hid
          (hrecovers.sound.lt_of_lookup hlookup) hentry
  | reference hid hchild ih =>
    -- The parent is canonical, so its children stand for those that the comparison pairs them with.
    obtain ⟨other, hstands, hbisimilar⟩ := ih
    have hcanonical := canonical_of_bisimilar hg hrecovers hstands hbisimilar
    obtain ⟨-, hmatch⟩ := hstands.kindsMatch hdescends hlt (InUse.stays g) hrecovers hcanonical
    exact exists_both hmatch ((bisimulation_bisimilar _ _).kind hbisimilar) _ hchild

end TypedClient.Declaration
