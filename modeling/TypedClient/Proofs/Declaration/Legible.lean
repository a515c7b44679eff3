import TypedClient.Proofs.Declaration.Statements

/-!
# What legible text is read as

A union that stands where a list type or a member of a union is asked for, without parentheses, is
not read as what was written: the brackets of a list go to its last member.  It is read as something
all the same, namely the expression with the same tokens that keeps to the grammar
(`TypeExpr.Legible.exists_wellFormed`).

* `Alternatives` says of tokens that they are well-formed expressions with bars between them;
* `TypeExpr.Legible.alternatives` says so of the tokens of a legible expression, by induction on it.
-/

set_option autoImplicit false

namespace TypedClient.Declaration

variable {known other : String → Prop} {e : TypeExpr}

/-! ## Legible expressions -/

theorem TypeExpr.Legible.mono (h : e.Legible known) (hknown : ∀ name, known name → other name) :
    e.Legible other := by
  induction h with
  | unknown => exact .unknown
  | primitive p => exact .primitive p
  | literal h => exact .literal h
  | name h hname => exact .name h (hknown _ hname)
  | array _ ih => exact .array ih
  | record _ ih => exact .record ih
  | object _ ih => exact .object ih
  | union hne _ ih => exact .union hne ih
  | group _ ih => exact .group ih
  | noted _ hnote ih => exact .noted ih hnote

/-- Reading the numbers anew keeps an expression legible. -/
theorem TypeExpr.Legible.reread {f : TypeExpr} (h : e.Legible known) (hf : e.reread? = some f) :
    f.Legible known := by
  induction h generalizing f with
  | unknown => cases hf; exact .unknown
  | primitive p => cases hf; exact .primitive p
  | literal h =>
    obtain ⟨value, hvalue, rfl⟩ := Option.map_eq_some_iff.1 hf
    exact .literal (h.reread hvalue)
  | name h hknown => cases hf; exact .name h hknown
  | array _ ih =>
    obtain ⟨item, hitem, rfl⟩ := Option.map_eq_some_iff.1 hf
    exact .array (ih hitem)
  | record _ ih =>
    obtain ⟨value, hvalue, rfl⟩ := Option.map_eq_some_iff.1 hf
    exact .record (ih hvalue)
  | object _ ih =>
    obtain ⟨members, hmembers, rfl⟩ := Option.map_eq_some_iff.1 hf
    exact .object (forall₂_right (rereadMembers?_eq_some hmembers) fun m hm n hn => ih m hm hn.2.2)
  | union hne _ ih =>
    obtain ⟨members, hmembers, rfl⟩ := Option.map_eq_some_iff.1 hf
    have hall := rereadAll?_eq_some hmembers
    refine .union ?_ (forall₂_right hall fun e he f hf => ih e he hf)
    rintro rfl
    exact hne (List.forall₂_nil_right_iff.1 hall)
  | group _ ih =>
    obtain ⟨inner, hinner, rfl⟩ := Option.map_eq_some_iff.1 hf
    exact .group (ih hinner)
  | noted _ hnote ih =>
    obtain ⟨inner, hinner, rfl⟩ := Option.map_eq_some_iff.1 hf
    exact .noted (ih hinner) hnote

/-- What may stand between bars may stand anywhere. -/
theorem TypeExpr.WellFormed.whole (h : e.WellFormed known false) : e.WellFormed known true := by
  cases h with
  | unknown => exact .unknown
  | primitive p => exact .primitive p
  | literal h => exact .literal h
  | name h hknown => exact .name h hknown
  | array h => exact .array h
  | record h => exact .record h
  | object h => exact .object h
  | group h => exact .group h

theorem Statement.Legible.reread {s t : Statement} (h : s.Legible known) (ht : s.reread? = some t) :
    t.Legible known := by
  cases h with
  | interface hname h =>
    obtain ⟨members, hmembers, rfl⟩ := Option.map_eq_some_iff.1 ht
    exact .interface hname
      (forall₂_right (rereadMembers?_eq_some hmembers) fun m hm n hn => (h m hm).reread hn.2.2)
  | typeAlias hname h =>
    obtain ⟨type, htype, rfl⟩ := Option.map_eq_some_iff.1 ht
    exact .typeAlias hname (h.reread htype)

/-! ## Tokens with bars between them -/

theorem tokensOfAll_append (es fs : List TypeExpr) :
    tokensOfAll (es ++ fs) = tokensOfAll es ++ tokensOfAll fs := by
  induction es with
  | nil => rfl
  | cons e es ih => rw [List.cons_append, tokensOfAll, tokensOfAll, ih, List.cons_append]

theorem intercalate_append (sep : List Token) {tss uss : List (List Token)} (htss : tss ≠ [])
    (huss : uss ≠ []) :
    sep.intercalate (tss ++ uss) = sep.intercalate tss ++ sep ++ sep.intercalate uss := by
  match tss, uss, htss, huss with
  | ts :: tss, us :: uss, _, _ =>
    rw [List.cons_append, intercalate_cons, intercalate_cons, intercalate_cons, List.flatMap_append,
      List.flatMap_cons]
    simp only [List.append_assoc]

/-- The tokens are those of well-formed expressions with bars between them. -/
structure Alternatives (known : String → Prop) (tokens : List Token) (members : List TypeExpr) :
    Prop where
  /-- There is an expression. -/
  nonempty : members ≠ []
  /-- None is a union. -/
  wellFormed : ∀ m ∈ members, m.WellFormed known false
  /-- The tokens are theirs. -/
  tokens_eq : [Token.punct '|'].intercalate (tokensOfAll members) = tokens

theorem TypeExpr.WellFormed.alternatives (h : e.WellFormed known false) :
    Alternatives known e.tokens [e] :=
  ⟨List.cons_ne_nil _ _, List.forall_mem_singleton.2 h, List.intercalate_singleton⟩

namespace Alternatives

variable {ts us : List Token} {ms ns : List TypeExpr}

theorem tokensOfAll_ne_nil (h : Alternatives known ts ms) : tokensOfAll ms ≠ [] := by
  match ms, h.nonempty with
  | m :: ms, _ => exact List.cons_ne_nil _ _

theorem append (h : Alternatives known ts ms) (h' : Alternatives known us ns) :
    Alternatives known (ts ++ [.punct '|'] ++ us) (ms ++ ns) := by
  refine ⟨List.append_ne_nil_of_left_ne_nil h.nonempty _,
    List.forall_mem_append.2 ⟨h.wellFormed, h'.wellFormed⟩, ?_⟩
  rw [tokensOfAll_append, intercalate_append _ h.tokensOfAll_ne_nil h'.tokensOfAll_ne_nil,
    h.tokens_eq, h'.tokens_eq]

/-- Brackets behind alternatives go to the last. -/
theorem array (h : Alternatives known ts ms) :
    ∃ ns, Alternatives known (ts ++ [.punct '[', .punct ']']) ns := by
  obtain ⟨init, last, rfl⟩ := (List.eq_nil_or_concat' ms).resolve_left h.nonempty
  have hlast := h.wellFormed last (List.mem_append_right _ (List.mem_singleton_self _))
  have harray : (TypeExpr.array last).WellFormed known false := .array hlast
  have htokens := h.tokens_eq
  by_cases hinit : init = []
  · subst hinit
    rw [List.nil_append, hlast.alternatives.tokens_eq] at htokens
    refine ⟨[.array last], ?_⟩
    rw [← htokens]
    exact harray.alternatives
  · have hfirst : Alternatives known _ init :=
      ⟨hinit, fun m hm => h.wellFormed m (List.mem_append_left _ hm), rfl⟩
    rw [(hfirst.append hlast.alternatives).tokens_eq] at htokens
    refine ⟨init ++ [.array last], ?_⟩
    have hall := hfirst.append harray.alternatives
    rw [TypeExpr.tokens, ← List.append_assoc, htokens] at hall
    exact hall

/-- Alternatives are read as the one type that there is, or as the union of several. -/
theorem exists_wellFormed (h : Alternatives known ts ms) :
    ∃ f : TypeExpr, f.WellFormed known true ∧ f.tokens = ts := by
  match ms, h with
  | [m], h =>
    have hwf := h.wellFormed m List.mem_cons_self
    exact ⟨m, hwf.whole, hwf.alternatives.tokens_eq.symm.trans h.tokens_eq⟩
  | m :: n :: ms, h => exact ⟨.union (m :: n :: ms), .union (by simp) h.wellFormed, h.tokens_eq⟩

end Alternatives

/-- The tokens of alternatives of alternatives. -/
theorem exists_alternatives_all {es : List TypeExpr} (hne : es ≠ [])
    (h : ∀ e ∈ es, ∃ ms, Alternatives known e.tokens ms) :
    ∃ ms, Alternatives known ([Token.punct '|'].intercalate (tokensOfAll es)) ms := by
  induction es with
  | nil => exact absurd rfl hne
  | cons e es ih =>
    obtain ⟨ms, hms⟩ := h e List.mem_cons_self
    match es, ih with
    | [], _ =>
      refine ⟨ms, ?_⟩
      rwa [tokensOfAll, tokensOfAll, List.intercalate_singleton]
    | f :: es, ih =>
      obtain ⟨ns, hns⟩ := ih (List.cons_ne_nil _ _) fun x hx => h x (List.mem_cons_of_mem _ hx)
      refine ⟨ms ++ ns, ?_⟩
      have hall := hms.append hns
      rwa [tokensOfAll, tokensOfAll, List.intercalate_cons_cons]

/-! ## Legible text is read -/

/-- Members have the tokens of members whose types keep to the grammar. -/
theorem exists_wellFormed_members {members : List (Member TypeExpr)}
    (h : ∀ m ∈ members, ∃ f : TypeExpr, f.WellFormed known true ∧ f.tokens = m.type.tokens) :
    ∃ others : List (Member TypeExpr), (∀ m ∈ others, m.type.WellFormed known true) ∧
      tokensOfMembers others = tokensOfMembers members := by
  induction members with
  | nil => exact ⟨[], List.forall_mem_nil _, rfl⟩
  | cons m members ih =>
    obtain ⟨f, hf, htokens⟩ := h m List.mem_cons_self
    obtain ⟨others, hothers, hrest⟩ := ih fun n hn => h n (List.mem_cons_of_mem _ hn)
    refine ⟨⟨m.name, m.optional, f⟩ :: others, List.forall_mem_cons.2 ⟨hf, hothers⟩, ?_⟩
    rw [tokensOfMembers, tokensOfMembers, htokens, hrest]

/-- **The tokens of a legible expression are alternatives.** -/
theorem TypeExpr.Legible.alternatives (h : e.Legible known) :
    ∃ ms, Alternatives known e.tokens ms := by
  have single {e f : TypeExpr} (hf : f.WellFormed known false) (htokens : f.tokens = e.tokens) :
      ∃ ms, Alternatives known e.tokens ms := ⟨[f], htokens ▸ hf.alternatives⟩
  induction h with
  | unknown => exact single .unknown rfl
  | primitive p => exact single (.primitive p) rfl
  | literal h => exact single (.literal h) rfl
  | name h hknown => exact single (.name h hknown) rfl
  | array _ ih =>
    obtain ⟨ms, hms⟩ := ih
    exact hms.array
  | record _ ih =>
    obtain ⟨ms, hms⟩ := ih
    obtain ⟨f, hf, htokens⟩ := hms.exists_wellFormed
    exact single (.record hf) (by rw [TypeExpr.tokens, TypeExpr.tokens, htokens])
  | object _ ih =>
    obtain ⟨others, hothers, htokens⟩ := exists_wellFormed_members fun m hm =>
      (ih m hm).choose_spec.exists_wellFormed
    exact single (.object hothers) (by rw [TypeExpr.tokens, TypeExpr.tokens, htokens])
  | union hne _ ih => exact exists_alternatives_all hne ih
  | group _ ih =>
    obtain ⟨ms, hms⟩ := ih
    obtain ⟨f, hf, htokens⟩ := hms.exists_wellFormed
    exact single (.group hf) (by rw [TypeExpr.tokens, TypeExpr.tokens, htokens])
  | noted _ _ ih => exact ih

/-- **A legible expression has the tokens of one that keeps to the grammar.** -/
theorem TypeExpr.Legible.exists_wellFormed (h : e.Legible known) :
    ∃ f : TypeExpr, f.WellFormed known true ∧ f.tokens = e.tokens := by
  obtain ⟨ms, hms⟩ := h.alternatives
  exact hms.exists_wellFormed

/-- And so does a declaration. -/
theorem Statement.Legible.exists_wellFormed {s : Statement} (h : s.Legible known) :
    ∃ t : Statement, t.WellFormed known ∧ t.name = s.name ∧ t.tokens = s.tokens := by
  cases h with
  | @interface name members hname h =>
    obtain ⟨others, hothers, htokens⟩ := exists_wellFormed_members fun m hm =>
      (h m hm).exists_wellFormed
    exact ⟨.interface name others, .interface hname hothers, rfl,
      by rw [Statement.tokens, Statement.tokens, htokens]⟩
  | @typeAlias name type hname h =>
    obtain ⟨f, hf, htokens⟩ := h.exists_wellFormed
    exact ⟨.typeAlias name f, .typeAlias hname hf, rfl,
      by rw [Statement.tokens, Statement.tokens, htokens]⟩

end TypedClient.Declaration
