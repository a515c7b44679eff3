import TypedClient.Proofs.Declaration.Writing

/-!
# Type expressions read from their tokens

The reader of types undoes `TypeExpr.tokens` on well-formed expressions, whatever follows, as long
as what follows does not go on the expression.

* `ReadsPlain`, `ReadsMember` and `ReadsType` say so for the three readers that an expression may be
  met by, each with the steps that suffice for it;
* `readMembers_bodyTokens` is the case of object types, whose members may be written with or without
  a semicolon behind the last;
* `TypeExpr.WellFormed.reads` puts the cases together.
-/

set_option autoImplicit false

namespace TypedClient.Declaration

/-! ## Signs that are not there -/

/-- None of the signs comes first. -/
def Avoids (signs : List Char) (tokens : Tokens) : Prop :=
  ∀ c ∈ signs, tokens.head? ≠ some (.punct c)

variable {known : String → Prop} {signs : List Char} {c : Char} {tokens : Tokens}

theorem Avoids.mono {others : List Char} (h : Avoids signs tokens) (hsub : others ⊆ signs) :
    Avoids others tokens := fun c hc => h c (hsub hc)

theorem Avoids.takeSign (h : Avoids signs tokens) (hc : c ∈ signs) :
    takeSign c tokens = (false, tokens) := by
  rw [Declaration.takeSign.eq_def]
  split
  · rename_i d rest
    have hne : d ≠ c := fun heq => h c hc (by rw [heq]; rfl)
    rw [if_neg hne]
  · rfl

theorem takeSign_of_ne {t : Token} (h : t ≠ .punct c) (rest : Tokens) :
    takeSign c (t :: rest) = (false, t :: rest) := by
  rw [takeSign.eq_def]
  split
  · rename_i d rest heq
    obtain ⟨rfl, rfl⟩ := List.cons.inj heq
    rw [if_neg fun heq => h (by rw [heq])]
  · rfl

@[simp] theorem takeSign_self (c : Char) (rest : Tokens) :
    takeSign c (.punct c :: rest) = (true, rest) := by
  rw [takeSign, if_pos rfl]

@[simp] theorem expectSign_self (c : Char) (rest : Tokens) :
    expectSign c (.punct c :: rest) = .ok rest := by
  rw [expectSign, takeSign_self]

theorem Avoids.readArrays (h : Avoids ['['] tokens) (e : TypeExpr) :
    readArrays e tokens = (e, tokens) := by
  rw [Declaration.readArrays.eq_def]
  split
  · exact absurd rfl (h '[' List.mem_cons_self)
  · rfl

/-- A token is no sign of the list. -/
theorem avoids_cons {t : Token} (h : ∀ c ∈ signs, t ≠ .punct c) (rest : Tokens) :
    Avoids signs (t :: rest) := by
  intro c hc heq
  exact h c hc (Option.some.inj heq)

/-! ## What is to be shown -/

/-- The tokens of an expression are read without brackets behind it. -/
def ReadsPlain (e : TypeExpr) : Prop :=
  ∀ steps rest, 3 * e.tokens.length ≤ steps + 2 → Avoids ['<'] rest →
    readPlain steps (e.tokens ++ rest) = .ok (e, rest)

/-- The tokens of an expression are read as a member of a union.  Brackets that follow are taken as
well. -/
def ReadsMember (e : TypeExpr) : Prop :=
  ∀ steps rest, 3 * e.tokens.length ≤ steps + 1 → Avoids ['<'] rest →
    readUnionMember steps (e.tokens ++ rest) = .ok (readArrays e rest)

/-- The tokens of an expression are read as a type. -/
def ReadsType (e : TypeExpr) : Prop :=
  ∀ steps rest, 3 * e.tokens.length ≤ steps → Avoids ['|', '[', '<'] rest →
    readType steps (e.tokens ++ rest) = .ok (e, rest)

/-- An expression has a first token, which is no bar. -/
def Starts (e : TypeExpr) : Prop := ∃ t ts, e.tokens = t :: ts ∧ t ≠ .punct '|'

theorem intercalate_cons (sep first : List Token) (rest : List (List Token)) :
    sep.intercalate (first :: rest) = first ++ rest.flatMap (sep ++ ·) := by
  induction rest generalizing first with
  | nil => simp
  | cons second rest ih => rw [List.intercalate_cons_cons, ih, List.flatMap_cons]; simp

theorem TypeExpr.WellFormed.starts {whole : Bool} {e : TypeExpr} (h : e.WellFormed known whole) :
    Starts e := by
  induction h with
  | unknown | primitive | name => exact ⟨_, _, rfl, by simp⟩
  | literal h => cases h <;> exact ⟨_, _, rfl, by simp⟩
  | record | object | group => exact ⟨_, _, rfl, by simp⟩
  | array _ ih =>
    obtain ⟨t, ts, hts, ht⟩ := ih
    exact ⟨t, ts ++ [.punct '[', .punct ']'], by rw [TypeExpr.tokens, hts]; rfl, ht⟩
  | @union members hlength _ ih =>
    cases members with
    | nil => cases hlength
    | cons first rest =>
      obtain ⟨t, ts, hts, ht⟩ := ih first List.mem_cons_self
      refine ⟨t, ts ++ (tokensOfAll rest).flatMap ([.punct '|'] ++ ·), ?_, ht⟩
      rw [TypeExpr.tokens, tokensOfAll, intercalate_cons, hts, List.cons_append]

/-! ## From one reader to the next -/

theorem ReadsPlain.member {e : TypeExpr} (h : ReadsPlain e) (hstarts : Starts e) :
    ReadsMember e := by
  intro steps rest hsteps hrest
  obtain ⟨t, ts, hts, -⟩ := hstarts
  obtain ⟨s, rfl⟩ : ∃ s, steps = s + 1 := by
    refine ⟨steps - 1, ?_⟩
    rw [hts, List.length_cons] at hsteps
    omega
  rw [readUnionMember, h s rest (by omega) hrest]
  rfl

theorem ReadsMember.type {e : TypeExpr} (h : ReadsMember e) (hstarts : Starts e) :
    ReadsType e := by
  intro steps rest hsteps hrest
  obtain ⟨t, ts, hts, ht⟩ := hstarts
  obtain ⟨s, rfl⟩ : ∃ s, steps = s + 2 := by
    refine ⟨steps - 2, ?_⟩
    rw [hts, List.length_cons] at hsteps
    omega
  have hdrop : dropSign '|' (e.tokens ++ rest) = e.tokens ++ rest := by
    rw [hts, List.cons_append, dropSign, takeSign_of_ne ht]
  rw [readType, hdrop, h (s + 1) rest (by omega) (hrest.mono (by simp)),
    (hrest.mono (by simp)).readArrays e]
  simp only [bind, Except.bind]
  rw [readAlternatives, hrest.takeSign (by simp)]
  rfl

/-! ## Words -/

/-- A word that no angle bracket follows stands for its own type. -/
theorem readPlain_word (steps : Nat) (word : String) {rest : Tokens} (h : Avoids ['<'] rest) :
    readPlain (steps + 1) (.ident word :: rest) = .ok (wordType word, rest) := by
  have hsign : takeSign '<' rest = (false, rest) := h.takeSign List.mem_cons_self
  rw [readPlain]
  · rw [hsign]
    split
    · simp_all
    · rfl
  · rintro tokens rfl -
    exact h '<' List.mem_cons_self rfl
  · rintro tokens rfl -
    exact h '<' List.mem_cons_self rfl

theorem readsPlain_word {e : TypeExpr} {word : String} (htokens : e.tokens = [.ident word])
    (htype : wordType word = e) : ReadsPlain e := by
  intro steps rest hsteps hrest
  rw [htokens] at hsteps ⊢
  obtain ⟨s, rfl⟩ : ∃ s, steps = s + 1 := ⟨steps - 1, by simp at hsteps; omega⟩
  rw [List.singleton_append, readPlain_word s word hrest, htype]

/-! ## Object types and unions -/

/-- The tokens behind a member, without the semicolon or comma that ends it. -/
def dropEnd (tokens : Tokens) : Tokens :=
  match takeSign ';' tokens with
  | (true, tokens) => tokens
  | (false, tokens) => dropSign ',' tokens

theorem readMembers_member {type : TypeExpr} (h : ReadsType type) (name : String) (optional : Bool)
    {steps : Nat} (hsteps : 3 * type.tokens.length ≤ steps) {tail : Tokens}
    (htail : Avoids ['|', '[', '<'] tail) :
    readMembers (steps + 1) (memberTokens name optional type.tokens ++ tail)
      = (readMembers steps (dropEnd tail)).map fun (members, tokens) =>
          (members.map (⟨name, optional, type⟩ :: ·), tokens) := by
  have hkey : keyToken name = .ident name ∨ keyToken name = .text name := by
    rw [keyToken]
    split
    · exact .inl rfl
    · exact .inr rfl
  have hcolon (sign : Char) (hsign : sign ≠ ':') :
      takeSign sign (.punct ':' :: (type.tokens ++ tail))
        = (false, .punct ':' :: (type.tokens ++ tail)) :=
    takeSign_of_ne (by simpa using hsign.symm) _
  have htype := h steps tail hsteps htail
  rcases hkey with hkey | hkey <;> cases optional <;>
    simp only [memberTokens, hkey, if_true, if_false, List.nil_append, List.cons_append,
      Bool.false_eq_true, readMembers, hcolon, takeSign_self, expectSign_self, htype, bind,
      Except.bind, ne_eq, Char.reduceEq, not_false_eq_true, pure, Except.pure] <;>
  · change _ = Except.map _ (readMembers steps (dropEnd tail))
    rw [dropEnd]
    cases readMembers steps _ <;> rfl

theorem readMembers_bodyTokens (final : Bool) {members : List (Member TypeExpr)}
    (h : ∀ m ∈ members, ReadsType m.type) (steps : Nat) (rest : Tokens)
    (hsteps : 3 * (bodyTokens final (tokensOfMembers members)).length ≤ steps) :
    readMembers steps (bodyTokens final (tokensOfMembers members) ++ rest)
      = .ok (some members, rest) := by
  induction members generalizing steps with
  | nil =>
    obtain ⟨s, rfl⟩ : ∃ s, steps = s + 1 := by
      refine ⟨steps - 1, ?_⟩
      simp only [bodyTokens, tokensOfMembers, List.length_singleton] at hsteps
      omega
    rfl
  | cons m members ih =>
    rw [tokensOfMembers, bodyTokens] at hsteps ⊢
    have hmembers := ih fun n hn => h n (List.mem_cons_of_mem _ hn)
    generalize hbody : bodyTokens final (tokensOfMembers members) = body at hsteps hmembers ⊢
    generalize hsep : (if (final || !(tokensOfMembers members).isEmpty) = true
      then [Token.punct ';'] else []) = sep at hsteps ⊢
    have htail : Avoids ['|', '[', '<'] (sep ++ body ++ rest) ∧
        dropEnd (sep ++ body ++ rest) = body ++ rest := by
      by_cases hlast : (final || !(tokensOfMembers members).isEmpty) = true
      · rw [if_pos hlast] at hsep
        subst hsep
        exact ⟨avoids_cons (by simp) _, by simp [dropEnd]⟩
      · rw [if_neg hlast] at hsep
        simp only [Bool.or_eq_true, Bool.not_eq_true', not_or, Bool.not_eq_true,
          Bool.not_eq_false, List.isEmpty_iff] at hlast
        rw [hlast.2, bodyTokens] at hbody
        subst hsep hbody
        exact ⟨avoids_cons (by simp) _, by simp [dropEnd, takeSign, dropSign]⟩
    simp only [memberTokens, List.length_append, List.length_cons] at hsteps
    obtain ⟨s, rfl⟩ : ∃ s, steps = s + 1 := ⟨steps - 1, by omega⟩
    have htype : 3 * m.type.tokens.length ≤ s := by omega
    have hmember := readMembers_member (h m List.mem_cons_self) m.name m.optional htype htail.1
    rw [List.append_assoc, List.append_assoc, ← List.append_assoc sep, hmember, htail.2,
      hmembers s (by omega)]
    rfl

/-- The members of a union behind the first. -/
theorem readAlternatives_tokens {members : List TypeExpr} (h : ∀ m ∈ members, ReadsMember m)
    (steps : Nat) (rest : Tokens) (hrest : Avoids ['|', '[', '<'] rest)
    (hsteps : 3 * ((tokensOfAll members).flatMap ([.punct '|'] ++ ·)).length + 1 ≤ steps) :
    readAlternatives steps ((tokensOfAll members).flatMap ([.punct '|'] ++ ·) ++ rest)
      = .ok (members, rest) := by
  induction members generalizing steps with
  | nil =>
    obtain ⟨s, rfl⟩ : ∃ s, steps = s + 1 := ⟨steps - 1, by omega⟩
    rw [tokensOfAll, List.flatMap_nil, List.nil_append, readAlternatives, hrest.takeSign (by simp)]
    rfl
  | cons m members ih =>
    rw [tokensOfAll, List.flatMap_cons] at hsteps ⊢
    simp only [List.length_append, List.length_cons, List.length_nil] at hsteps
    obtain ⟨s, rfl⟩ : ∃ s, steps = s + 1 := ⟨steps - 1, by omega⟩
    have hothers := ih (fun n hn => h n (List.mem_cons_of_mem _ hn)) s (by omega)
    have hafter :
        Avoids ['[', '<'] ((tokensOfAll members).flatMap ([.punct '|'] ++ ·) ++ rest) := by
      cases members with
      | nil => exact hrest.mono (by simp)
      | cons n members => exact avoids_cons (by simp) _
    rw [List.append_assoc, List.append_assoc, List.singleton_append, readAlternatives,
      takeSign_self]
    have hbrackets : Avoids ['['] ((tokensOfAll members).flatMap ([.punct '|'] ++ ·) ++ rest) :=
      hafter.mono (by simp)
    simp only [h m List.mem_cons_self s _ (by omega) (hafter.mono (by simp)),
      hbrackets.readArrays m, hothers, bind, Except.bind]
    rfl

/-! ## All expressions -/

theorem readsPlain_literal {value : Json} (h : IsLiteral value) : ReadsPlain (.literal value) := by
  cases h with
  | bool b => cases b <;> exact readsPlain_word rfl rfl
  | string s =>
    intro steps rest hsteps _
    obtain ⟨s, rfl⟩ : ∃ s, steps = s + 1 := by
      refine ⟨steps - 1, ?_⟩
      simp only [TypeExpr.tokens, literalTokens, List.length_singleton] at hsteps
      omega
    rfl
  | number n =>
    intro steps rest hsteps _
    obtain ⟨s, rfl⟩ : ∃ s, steps = s + 1 := by
      refine ⟨steps - 1, ?_⟩
      simp only [TypeExpr.tokens, literalTokens, List.length_singleton] at hsteps
      omega
    rfl

theorem readsPlain_group {inner : TypeExpr} (h : ReadsType inner) : ReadsPlain (.group inner) := by
  intro steps rest hsteps _
  rw [TypeExpr.tokens] at hsteps ⊢
  simp only [List.length_append, List.length_cons, List.length_nil] at hsteps
  obtain ⟨s, rfl⟩ : ∃ s, steps = s + 1 := ⟨steps - 1, by omega⟩
  have hinner := h s (.punct ')' :: rest) (by omega) (avoids_cons (by simp) _)
  rw [List.append_assoc, List.cons_append, List.singleton_append, readPlain, hinner]
  simp only [bind, Except.bind, expectSign_self]
  rfl

theorem readsPlain_object {members : List (Member TypeExpr)} (h : ∀ m ∈ members, ReadsType m.type) :
    ReadsPlain (.object members) := by
  intro steps rest hsteps _
  rw [TypeExpr.tokens] at hsteps ⊢
  rw [List.length_cons] at hsteps
  obtain ⟨s, rfl⟩ : ∃ s, steps = s + 1 := ⟨steps - 1, by omega⟩
  rw [List.cons_append, readPlain, readMembers_bodyTokens false h s rest (by omega)]
  rfl

theorem readsPlain_record {value : TypeExpr} (h : ReadsType value) :
    ReadsPlain (.record value) := by
  intro steps rest hsteps _
  rw [TypeExpr.tokens] at hsteps ⊢
  simp only [List.length_append, List.length_cons, List.length_nil] at hsteps
  obtain ⟨s, rfl⟩ : ∃ s, steps = s + 1 := ⟨steps - 1, by omega⟩
  have hstarts : Starts (.primitive .string) := ⟨_, _, rfl, by simp⟩
  have hstring : ReadsType (.primitive .string) :=
    ((readsPlain_word (e := .primitive .string) rfl rfl).member hstarts).type hstarts
  have hkey := hstring s (.punct ',' :: (value.tokens ++ .punct '>' :: rest))
    (by simp [TypeExpr.tokens]; omega) (avoids_cons (by simp) _)
  have hvalue := h s (.punct '>' :: rest) (by omega) (avoids_cons (by simp) _)
  simp only [List.append_assoc, List.cons_append, List.nil_append]
  rw [readPlain]
  simp only [TypeExpr.tokens, Types.Primitive.text, List.singleton_append] at hkey
  simp only [hkey, hvalue, bind, Except.bind, expectSign_self]
  rfl

theorem readsMember_array {item : TypeExpr} (h : ReadsMember item) : ReadsMember (.array item) := by
  intro steps rest hsteps hrest
  rw [TypeExpr.tokens] at hsteps ⊢
  rw [List.length_append] at hsteps
  have hitem := h steps (.punct '[' :: .punct ']' :: rest) (by omega) (avoids_cons (by simp) _)
  rw [List.append_assoc]
  exact hitem

theorem readsType_union {members : List TypeExpr} (hlength : 2 ≤ members.length)
    (hstarts : ∀ m ∈ members, Starts m) (h : ∀ m ∈ members, ReadsMember m) :
    ReadsType (.union members) := by
  intro steps rest hsteps hrest
  obtain ⟨first, second, others, rfl⟩ : ∃ a b l, members = a :: b :: l := by
    match members, hlength with
    | a :: b :: l, _ => exact ⟨a, b, l, rfl⟩
  obtain ⟨t, ts, hts, ht⟩ := hstarts first List.mem_cons_self
  rw [TypeExpr.tokens, tokensOfAll, intercalate_cons] at hsteps ⊢
  have hpos : 0 < first.tokens.length := by rw [hts]; simp
  rw [List.length_append] at hsteps
  obtain ⟨s, rfl⟩ : ∃ s, steps = s + 1 := ⟨steps - 1, by omega⟩
  have hrest' := readAlternatives_tokens (fun m hm => h m (List.mem_cons_of_mem _ hm)) s rest hrest
    (by omega)
  generalize htail : ((tokensOfAll (second :: others)).flatMap ([.punct '|'] ++ ·)) ++ rest = tail
    at hrest'
  have hbar : Avoids ['[', '<'] tail := by
    rw [← htail]
    exact avoids_cons (by simp) _
  have hdrop : dropSign '|' (first.tokens ++ tail) = first.tokens ++ tail := by
    rw [hts, List.cons_append, dropSign, takeSign_of_ne ht]
  have hfirst := h first List.mem_cons_self s tail (by omega) (hbar.mono (by simp))
  rw [(hbar.mono (by simp)).readArrays first] at hfirst
  rw [List.append_assoc, htail, readType, hdrop, hfirst]
  simp only [hrest', bind, Except.bind]
  rfl

/-- How an expression is read: as a type (`true`) or as a member of a union (`false`). -/
def Reads (whole : Bool) (e : TypeExpr) : Prop := if whole then ReadsType e else ReadsMember e

theorem ReadsMember.reads {whole : Bool} {e : TypeExpr} (h : ReadsMember e)
    (hwf : e.WellFormed known whole) : Reads whole e := by
  cases whole
  · exact h
  · exact h.type hwf.starts

theorem ReadsPlain.reads {whole : Bool} {e : TypeExpr} (h : ReadsPlain e)
    (hwf : e.WellFormed known whole) : Reads whole e := (h.member hwf.starts).reads hwf

/-- **A well-formed expression is read from its tokens.** -/
theorem TypeExpr.WellFormed.reads {whole : Bool} {e : TypeExpr} (h : e.WellFormed known whole) :
    Reads whole e := by
  induction h with
  | @unknown whole =>
    have hwf : TypeExpr.unknown.WellFormed known whole := .unknown
    have hword : wordType "unknown" = .unknown := rfl
    exact (readsPlain_word rfl hword).reads hwf
  | @primitive whole p =>
    have hwf : (TypeExpr.primitive p).WellFormed known whole := .primitive p
    have hplain : ReadsPlain (.primitive p) := by cases p <;> exact readsPlain_word rfl rfl
    exact hplain.reads hwf
  | @literal whole value h =>
    have hwf : (TypeExpr.literal value).WellFormed known whole := .literal h
    exact (readsPlain_literal h).reads hwf
  | @name whole name h hknown =>
    have hwf : (TypeExpr.name name).WellFormed known whole := .name h hknown
    exact (readsPlain_word rfl h.free).reads hwf
  | @array whole item h ih =>
    have hwf : (TypeExpr.array item).WellFormed known whole := .array h
    exact (readsMember_array ih).reads hwf
  | @record whole value h ih =>
    have hwf : (TypeExpr.record value).WellFormed known whole := .record h
    exact (readsPlain_record ih).reads hwf
  | @object whole members h ih =>
    have hwf : (TypeExpr.object members).WellFormed known whole := .object h
    exact (readsPlain_object ih).reads hwf
  | union hlength h ih => exact readsType_union hlength (fun m hm => (h m hm).starts) ih
  | @group whole inner h ih =>
    have hwf : (TypeExpr.group inner).WellFormed known whole := .group h
    exact (readsPlain_group ih).reads hwf

end TypedClient.Declaration
