import Mathlib.Data.List.Forall2
import TypedClient.Declaration.Reader
import TypedClient.Proofs.Declaration.Comments
import TypedClient.Proofs.Declaration.NumberText

/-!
# The tokens of a type expression

What the text of a type expression is cut into can be said without the text: `TypeExpr.tokens` lists
the tokens, and `TypeExpr.reread?` is the expression that they stand for, in which every number has
been replaced by the one its text reads as.

* `TypeExpr.WellFormed` is the grammar: a union has two members at least and stands in parentheses
  where it is itself a member of a union or the item of a list;
* `TypeExpr.Legible` asks for less: there may be comments, and unions without parentheses;
* `lexesBefore_expr` says that the text of a legible expression has the tokens of the expression
  with its numbers read anew.
-/

set_option autoImplicit false

namespace TypedClient.Declaration

open TypedClient.Text
open TypedClient.Types (Primitive)

/-! ## The grammar -/

/-- A name that a type can be referred to by: a word that stands for no type of its own. -/
structure IsTypeName (name : String) : Prop where
  /-- It is a word. -/
  shaped : Naming.isIdentifierShaped name.toList = true
  /-- It is read as a name. -/
  free : wordType name = .name name

/-- An identifier of ASCII characters that starts with an upper-case letter. -/
def IsDeclaredName (name : String) : Prop :=
  ∃ first rest, name.toList = first :: rest ∧ first.isUpper = true ∧
    ∀ c ∈ rest, Naming.isIdentifierPart c = true

/-- The words that stand for types of their own start with lower-case letters. -/
theorem IsDeclaredName.isTypeName {name : String} (h : IsDeclaredName name) : IsTypeName name := by
  obtain ⟨first, rest, hname, hupper, hrest⟩ := h
  refine ⟨?_, ?_⟩
  · rw [hname, Naming.isIdentifierShaped, Bool.and_eq_true, List.all_eq_true]
    have halpha : first.isAlpha = true := Bool.or_eq_true_iff.2 (.inl hupper)
    exact ⟨by simp [Naming.isIdentifierStart, halpha], hrest⟩
  · have hne {word : String} (hword : (word.toList.head?.map Char.isUpper).getD false = false) :
        name ≠ word := by
      rintro rfl
      rw [hname] at hword
      exact Bool.false_ne_true (hword.symm.trans hupper)
    rw [wordType.eq_def]
    split
    all_goals first
      | rfl
      | exact absurd rfl (hne (by decide))

/-- A name stays one with more letters, digits and marks behind it. -/
theorem IsDeclaredName.append {name ending : String} (h : IsDeclaredName name)
    (hending : ∀ c ∈ ending.toList, Naming.isIdentifierPart c = true) :
    IsDeclaredName (name ++ ending) := by
  obtain ⟨first, rest, hname, hupper, hrest⟩ := h
  refine ⟨first, rest ++ ending.toList, by rw [String.toList_append, hname]; rfl, hupper,
    fun c hc => ?_⟩
  rcases List.mem_append.1 hc with hc | hc
  · exact hrest c hc
  · exact hending c hc

/-- A value that a literal stands for: a text, a number or a truth value. -/
inductive IsLiteral : Json → Prop
  /-- A text. -/
  | string (s : String) : IsLiteral (.string s)
  /-- A number. -/
  | number (n : Json.Number) : IsLiteral (.number n)
  /-- A truth value. -/
  | bool (b : Bool) : IsLiteral (.bool b)

/-- The type expressions that stand as they are where a type is asked for (`true`) and between the
bars of a union (`false`), and that refer to no other than the known names. -/
inductive TypeExpr.WellFormed (known : String → Prop) : (whole : Bool) → TypeExpr → Prop
  /-- Every value. -/
  | unknown {whole : Bool} : WellFormed known whole .unknown
  /-- A scalar type. -/
  | primitive {whole : Bool} (p : Primitive) : WellFormed known whole (.primitive p)
  /-- A literal. -/
  | literal {whole : Bool} {value : Json} (h : IsLiteral value) :
      WellFormed known whole (.literal value)
  /-- A name. -/
  | name {whole : Bool} {name : String} (h : IsTypeName name) (hknown : known name) :
      WellFormed known whole (.name name)
  /-- Lists of a type that is no union. -/
  | array {whole : Bool} {item : TypeExpr} (h : WellFormed known false item) :
      WellFormed known whole (.array item)
  /-- Objects with members of one type. -/
  | record {whole : Bool} {value : TypeExpr} (h : WellFormed known true value) :
      WellFormed known whole (.record value)
  /-- Objects with the given members. -/
  | object {whole : Bool} {members : List (Member TypeExpr)}
      (h : ∀ m ∈ members, WellFormed known true m.type) : WellFormed known whole (.object members)
  /-- A union of two or more types that are no unions. -/
  | union {members : List TypeExpr} (hlength : 2 ≤ members.length)
      (h : ∀ m ∈ members, WellFormed known false m) : WellFormed known true (.union members)
  /-- Parentheses around any type. -/
  | group {whole : Bool} {inner : TypeExpr} (h : WellFormed known true inner) :
      WellFormed known whole (.group inner)

/-- The type expressions whose text has the tokens of the expression, and that refer to no other
than the known names.  Unions may stand anywhere, and so may comments. -/
inductive TypeExpr.Legible (known : String → Prop) : TypeExpr → Prop
  /-- Every value. -/
  | unknown : Legible known .unknown
  /-- A scalar type. -/
  | primitive (p : Primitive) : Legible known (.primitive p)
  /-- A literal. -/
  | literal {value : Json} (h : IsLiteral value) : Legible known (.literal value)
  /-- A name. -/
  | name {name : String} (h : IsTypeName name) (hknown : known name) : Legible known (.name name)
  /-- Lists. -/
  | array {item : TypeExpr} (h : Legible known item) : Legible known (.array item)
  /-- Objects with members of one type. -/
  | record {value : TypeExpr} (h : Legible known value) : Legible known (.record value)
  /-- Objects with the given members. -/
  | object {members : List (Member TypeExpr)} (h : ∀ m ∈ members, Legible known m.type) :
      Legible known (.object members)
  /-- A union of something. -/
  | union {members : List TypeExpr} (hne : members ≠ []) (h : ∀ m ∈ members, Legible known m) :
      Legible known (.union members)
  /-- Parentheses. -/
  | group {inner : TypeExpr} (h : Legible known inner) : Legible known (.group inner)
  /-- A comment that ends where it is meant to. -/
  | noted {inner : TypeExpr} {note : String} (h : Legible known inner)
      (hnote : NoClose note.toList) : Legible known (.noted inner note)

theorem TypeExpr.WellFormed.legible {known : String → Prop} {whole : Bool} {e : TypeExpr}
    (h : e.WellFormed known whole) : e.Legible known := by
  induction h with
  | unknown => exact .unknown
  | primitive p => exact .primitive p
  | literal h => exact .literal h
  | name h hknown => exact .name h hknown
  | array _ ih => exact .array ih
  | record _ ih => exact .record ih
  | object _ ih => exact .object ih
  | union hlength _ ih =>
    exact .union (List.ne_nil_of_length_pos (Nat.lt_of_lt_of_le (by decide) hlength)) ih
  | group _ ih => exact .group ih

/-! ## Tokens -/

/-- The token for the name of a member. -/
def keyToken (name : String) : Token :=
  if Naming.isIdentifierShaped name.toList then .ident name else .text name

/-- The tokens of a member, given those of its type. -/
def memberTokens (name : String) (optional : Bool) (type : List Token) : List Token :=
  keyToken name :: (if optional then [.punct '?'] else []) ++ .punct ':' :: type

/-- The tokens from the first member of an object type through its closing brace, given those of the
members; each member but the last ends in a semicolon, and so does the last if `final` is set. -/
def bodyTokens (final : Bool) : List (List Token) → List Token
  | [] => [.punct '\x7d']
  | member :: rest =>
    member ++ (if final || !rest.isEmpty then [.punct ';'] else []) ++ bodyTokens final rest

/-- The tokens of a literal. -/
def literalTokens : Json → List Token
  | .string s => [.text s]
  | .number n => [.number n]
  | .bool b => [.ident (if b then "true" else "false")]
  | _ => []

mutual

/-- The tokens of a type expression. -/
def TypeExpr.tokens : TypeExpr → List Token
  | .unknown => [.ident "unknown"]
  | .primitive p => [.ident p.text]
  | .literal value => literalTokens value
  | .name name => [.ident name]
  | .array item => item.tokens ++ [.punct '[', .punct ']']
  | .record value =>
    [.ident "Record", .punct '<', .ident "string", .punct ','] ++ value.tokens ++ [.punct '>']
  | .object members => .punct '\x7b' :: bodyTokens false (tokensOfMembers members)
  | .union members => [Token.punct '|'].intercalate (tokensOfAll members)
  | .group inner => .punct '(' :: inner.tokens ++ [.punct ')']
  | .noted inner _ => inner.tokens

/-- The tokens of type expressions, one by one. -/
def tokensOfAll : List TypeExpr → List (List Token)
  | [] => []
  | expr :: rest => expr.tokens :: tokensOfAll rest

/-- The tokens of members, one by one. -/
def tokensOfMembers : List (Member TypeExpr) → List (List Token)
  | [] => []
  | ⟨name, optional, type⟩ :: rest => memberTokens name optional type.tokens :: tokensOfMembers rest

end

/-! ## Numbers read anew -/

/-- The number that the text of a number reads as. -/
def rereadNumber? (n : Json.Number) : Option Json.Number := numberValue? n.text.toList

/-- The literal that the text of a literal reads as. -/
def rereadLiteral? : Json → Option Json
  | .number n => (rereadNumber? n).map .number
  | value => some value

mutual

/-- The type expression with the number that its text reads as in place of each number. -/
def TypeExpr.reread? : TypeExpr → Option TypeExpr
  | .literal value => (rereadLiteral? value).map .literal
  | .array item => item.reread?.map .array
  | .record value => value.reread?.map .record
  | .object members => (rereadMembers? members).map .object
  | .union members => (rereadAll? members).map .union
  | .group inner => inner.reread?.map .group
  | .noted inner note => inner.reread?.map (.noted · note)
  | expr => some expr

/-- `reread?` for several type expressions. -/
def rereadAll? : List TypeExpr → Option (List TypeExpr)
  | [] => some []
  | expr :: rest => expr.reread?.bind fun expr => (rereadAll? rest).map (expr :: ·)

/-- `reread?` for the types of members. -/
def rereadMembers? : List (Member TypeExpr) → Option (List (Member TypeExpr))
  | [] => some []
  | ⟨name, optional, type⟩ :: rest =>
    type.reread?.bind fun type => (rereadMembers? rest).map (⟨name, optional, type⟩ :: ·)

end

/-- A member that is another with its type read anew. -/
def Rereads (m n : Member TypeExpr) : Prop :=
  n.name = m.name ∧ n.optional = m.optional ∧ m.type.reread? = some n.type

theorem rereadMembers?_eq_some {ms ns : List (Member TypeExpr)} (h : rereadMembers? ms = some ns) :
    List.Forall₂ Rereads ms ns := by
  induction ms generalizing ns with
  | nil => cases h; exact .nil
  | cons m ms ih =>
    rw [rereadMembers?] at h
    obtain ⟨type, htype, h⟩ := Option.bind_eq_some_iff.1 h
    obtain ⟨others, hothers, rfl⟩ := Option.map_eq_some_iff.1 h
    exact .cons ⟨rfl, rfl, htype⟩ (ih hothers)

theorem rereadAll?_eq_some {es fs : List TypeExpr} (h : rereadAll? es = some fs) :
    List.Forall₂ (fun e f => e.reread? = some f) es fs := by
  induction es generalizing fs with
  | nil => cases h; exact .nil
  | cons e es ih =>
    rw [rereadAll?] at h
    obtain ⟨expr, hexpr, h⟩ := Option.bind_eq_some_iff.1 h
    obtain ⟨others, hothers, rfl⟩ := Option.map_eq_some_iff.1 h
    exact .cons hexpr (ih hothers)

/-! ## Pieces without numbers -/

variable {α : Type} (x : Option α) (f : α → List Token) (ts : List Token)

@[simp] theorem joined_map_some : joined (x.map f) (some ts) = x.map fun a => f a ++ ts := by
  cases x <;> rfl

@[simp] theorem joined_some_map : joined (some ts) (x.map f) = x.map fun a => ts ++ f a := by
  cases x <;> rfl

/-- A space and a sign that is not the sign of equality. -/
theorem lexes_spacedSign {c : Char} (h : c ∈ signs) (hc : c ≠ '=') :
    Lexes [' ', c] (some [.punct c]) :=
  (lexes_blank isBlank_space).append (lexes_sign h hc)

/-- A sign and a space. -/
theorem lexes_signSpace {c : Char} (h : c ∈ signs) (hc : c ≠ '=') :
    Lexes [c, ' '] (some [.punct c]) :=
  (lexes_sign h hc).append (lexes_blank isBlank_space)

/-- A word that is written out. -/
theorem lexesBefore_keyword {w : String} (h : Naming.isIdentifierShaped w.toList = true)
    {e : TypeExpr} (htokens : e.tokens = [.ident w]) :
    LexesBefore w.toList ((some e).map TypeExpr.tokens) := by
  rw [Option.map_some, htokens]
  exact lexesBefore_word h

/-! ## The text of an expression -/

theorem lexesBefore_literal {value : Json} (h : IsLiteral value) :
    LexesBefore value.compact.toList ((rereadLiteral? value).map literalTokens) := by
  cases h with
  | string s => exact (lexes_quote s).before
  | number n =>
    have h := lexesBefore_text n
    rw [rereadLiteral?, Option.map_map]
    exact h
  | bool b => cases b <;> exact lexesBefore_word (by decide)

theorem lexesBefore_key (name : String) :
    LexesBefore (Naming.propertyKey name).toList (some [keyToken name]) := by
  rw [Naming.propertyKey, keyToken]
  split
  · exact lexesBefore_word ‹_›
  · exact (lexes_quote name).before

theorem lexesBefore_member (name : String) (optional : Bool) {type : TypeExpr}
    (h : LexesBefore type.text.toList (type.reread?.map TypeExpr.tokens)) :
    LexesBefore (memberText name optional type.text).toList
      (type.reread?.map fun type => memberTokens name optional type.tokens) := by
  have hcolon := (lexes_signSpace (c := ':') (by decide) (by decide)).append_before h
  have hkey := lexesBefore_key name
  rw [memberText, String.toList_append, String.toList_append]
  cases optional with
  | true =>
    have hall := hkey.append_before
      ((lexes_sign (c := '?') (by decide) (by decide)).append_before hcolon) (by decide)
    simpa [memberTokens] using hall
  | false =>
    have hall := hkey.append_before hcolon (by decide)
    simpa [memberTokens] using hall

/-- The members of an object type on one line, from the first through the closing brace. -/
theorem lexes_members {first : Member TypeExpr} {rest : List (Member TypeExpr)}
    (h : ∀ m ∈ first :: rest,
      LexesBefore m.type.text.toList (m.type.reread?.map TypeExpr.tokens)) :
    Lexes ((String.intercalate "; " (memberTexts (first :: rest))).toList ++ [' ', '\x7d'])
      ((rereadMembers? (first :: rest)).map fun members =>
        bodyTokens false (tokensOfMembers members)) := by
  induction rest generalizing first with
  | nil =>
    have hfirst := lexesBefore_member first.name first.optional
      (h first List.mem_cons_self)
    have hall := hfirst.append
      (lexes_spacedSign (c := '\x7d') (by decide) (by decide)) (by decide)
    rw [String.toList_intercalate, memberTexts, memberTexts, List.map_singleton,
      List.intercalate_singleton, rereadMembers?, rereadMembers?]
    cases hreread : first.type.reread? <;> simpa [hreread, tokensOfMembers, bodyTokens] using hall
  | cons second rest ih =>
    have hfirst := lexesBefore_member first.name first.optional
      (h first List.mem_cons_self)
    have hrest := ih fun m hm => h m (List.mem_cons_of_mem _ hm)
    have hall := hfirst.append
      ((lexes_signSpace (c := ';') (by decide) (by decide)).append hrest) (by decide)
    rw [String.toList_intercalate] at hall ⊢
    rw [memberTexts, memberTexts, List.map_cons, List.map_cons, List.intercalate_cons_cons,
      rereadMembers?]
    rw [memberTexts, List.map_cons] at hall
    cases hreread : first.type.reread? <;> cases hothers : rereadMembers? (second :: rest) <;>
      simp [hreread, hothers, tokensOfMembers, bodyTokens] at hall ⊢
    · exact hall
    · exact hall
    · exact hall
    · obtain ⟨_, hlater⟩ := rereadMembers?_eq_some hothers
      simpa [tokensOfMembers] using hall

theorem lexes_object {members : List (Member TypeExpr)}
    (h : ∀ m ∈ members, LexesBefore m.type.text.toList (m.type.reread?.map TypeExpr.tokens)) :
    Lexes (TypeExpr.object members).text.toList
      ((TypeExpr.object members).reread?.map TypeExpr.tokens) := by
  rw [TypeExpr.text, TypeExpr.reread?, Option.map_map]
  have hopen : Lexes ['\x7b'] (some [.punct '\x7b']) := lexes_sign (by decide) (by decide)
  cases members with
  | nil => exact hopen.append (lexes_sign (c := '\x7d') (by decide) (by decide))
  | cons first rest =>
    have hall := (lexes_signSpace (c := '\x7b') (by decide) (by decide)).append (lexes_members h)
    rw [joined_some_map] at hall
    simpa [braced, memberTexts, Function.comp_def, TypeExpr.tokens] using hall

/-- The members of a union from the first through the last. -/
theorem lexesBefore_alternatives {first : TypeExpr} {rest : List TypeExpr}
    (h : ∀ e ∈ first :: rest, LexesBefore e.text.toList (e.reread?.map TypeExpr.tokens)) :
    LexesBefore (String.intercalate " | " (texts (first :: rest))).toList
      ((rereadAll? (first :: rest)).map fun members =>
        [Token.punct '|'].intercalate (tokensOfAll members)) := by
  induction rest generalizing first with
  | nil =>
    have hfirst := h first List.mem_cons_self
    rw [String.toList_intercalate, texts, texts, List.map_singleton, List.intercalate_singleton,
      rereadAll?, rereadAll?]
    cases hreread : first.reread? <;> simpa [hreread, tokensOfAll] using hfirst
  | cons second rest ih =>
    have hfirst := h first List.mem_cons_self
    have hrest := ih fun e he => h e (List.mem_cons_of_mem _ he)
    have hbar : Lexes [' ', '|', ' '] (some [.punct '|']) :=
      (lexes_blank isBlank_space).append (lexes_signSpace (by decide) (by decide))
    have hall := hfirst.append_before (hbar.append_before hrest) (by decide)
    rw [String.toList_intercalate] at hall ⊢
    rw [texts, texts, List.map_cons, List.map_cons, List.intercalate_cons_cons, rereadAll?]
    rw [texts, List.map_cons] at hall
    cases hreread : first.reread? <;> cases hothers : rereadAll? (second :: rest) <;>
      simp [hreread, hothers, tokensOfAll] at hall ⊢
    · exact hall
    · exact hall
    · exact hall
    · obtain ⟨_, hlater⟩ := rereadAll?_eq_some hothers
      simpa [tokensOfAll, List.intercalate_cons_cons] using hall

/-- **The text of an expression has the tokens of the expression** with its numbers read anew, and
no tokens if one of them does not read back. -/
theorem lexesBefore_expr {known : String → Prop} {e : TypeExpr} (h : e.Legible known) :
    LexesBefore e.text.toList (e.reread?.map TypeExpr.tokens) := by
  induction h with
  | unknown => exact lexesBefore_keyword (by decide) rfl
  | primitive p => cases p <;> exact lexesBefore_keyword (by decide) rfl
  | literal h =>
    have := lexesBefore_literal h
    rw [TypeExpr.reread?, Option.map_map]
    exact this
  | name h _ => exact lexesBefore_keyword h.shaped rfl
  | array _ ih =>
    have hall := ih.append ((lexes_sign (c := '[') (by decide) (by decide)).append
      (lexes_sign (c := ']') (by decide) (by decide))) (by decide)
    rw [TypeExpr.text, String.toList_append, TypeExpr.reread?, Option.map_map]
    simpa [Function.comp_def, TypeExpr.tokens] using hall.before
  | record _ ih =>
    have hrecord : LexesBefore "Record".toList (some [.ident "Record"]) :=
      lexesBefore_word (by decide)
    have hstring : LexesBefore "string".toList (some [.ident "string"]) :=
      lexesBefore_word (by decide)
    have hvalue := ih.append (lexes_sign (c := '>') (by decide) (by decide)) (by decide)
    have hinside := hstring.append
      ((lexes_signSpace (c := ',') (by decide) (by decide)).append hvalue) (by decide)
    have hall := hrecord.append
      ((lexes_sign (c := '<') (by decide) (by decide)).append hinside) (by decide)
    rw [TypeExpr.text, String.toList_append, String.toList_append, TypeExpr.reread?,
      Option.map_map]
    simpa [Function.comp_def, TypeExpr.tokens] using hall.before
  | object _ ih => exact (lexes_object ih).before
  | @union members hne _ ih =>
    match members, hne with
    | first :: rest, _ =>
      rw [TypeExpr.text, TypeExpr.reread?, Option.map_map]
      exact lexesBefore_alternatives ih
  | group _ ih =>
    have hall := (lexes_sign (c := '(') (by decide) (by decide)).append
      (ih.append (lexes_sign (c := ')') (by decide) (by decide)) (by decide))
    rw [TypeExpr.text, String.toList_append, String.toList_append, TypeExpr.reread?,
      Option.map_map]
    simpa [Function.comp_def, TypeExpr.tokens] using hall.before
  | @noted inner note _ hnote ih =>
    have hbody : NoClose (' ' :: note.toList ++ [' ']) :=
      .append (.append (a := [' ']) (by decide) hnote (.inl (by decide))) (by decide)
        (.inr (by decide))
    have hcomment := (lexes_blank isBlank_space).append (lexes_comment (closes_of_noClose hbody))
    have hall := ih.append hcomment (by decide)
    rw [TypeExpr.text, String.toList_append, String.toList_append, String.toList_append,
      TypeExpr.reread?, Option.map_map]
    simpa [Function.comp_def, TypeExpr.tokens] using hall.before

end TypedClient.Declaration
