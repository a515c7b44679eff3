import TypedClient.Proofs.Declaration.Comments
import TypedClient.Proofs.Declaration.Expressions
import TypedClient.Proofs.Declaration.NumberText
import TypedClient.Proofs.Declaration.Writing
import TypedClient.Proofs.Lists
import TypedClient.Proofs.Text.Lines

/-!
# Expressions without surprises

Whatever a graph says, the text of a type expression is made of a few harmless pieces: names that
can be declared, constants that are scalars, and comments that end where they are meant to.

* `TypeExpr.Tame` says so of an expression, and `tame_expr` of the expression for any node of a
  graph whose names can be declared;
* `TypeExpr.Tame.oneLine_text` says that such an expression is written on one line.

Nothing is asked of numbers here, nor of choices among nothing, unlike for text that is read back.
-/

set_option autoImplicit false

namespace TypedClient.Declaration

open TypedClient.Text TypedClient.Types

/-- The expressions that are made of names that can be declared, of scalars and of comments that end
where they are meant to. -/
inductive TypeExpr.Tame : TypeExpr → Prop
  /-- Every value. -/
  | unknown : Tame .unknown
  /-- A scalar type. -/
  | primitive (p : Primitive) : Tame (.primitive p)
  /-- A constant. -/
  | literal {value : Json} (h : IsLiteral value) : Tame (.literal value)
  /-- A name. -/
  | name {name : String} (h : IsDeclaredName name) : Tame (.name name)
  /-- Lists. -/
  | array {item : TypeExpr} (h : Tame item) : Tame (.array item)
  /-- Objects with members of one type. -/
  | record {value : TypeExpr} (h : Tame value) : Tame (.record value)
  /-- Objects with the given members. -/
  | object {members : List (Member TypeExpr)} (h : ∀ m ∈ members, Tame m.type) :
      Tame (.object members)
  /-- A choice. -/
  | union {members : List TypeExpr} (h : ∀ m ∈ members, Tame m) : Tame (.union members)
  /-- Parentheses. -/
  | group {inner : TypeExpr} (h : Tame inner) : Tame (.group inner)
  /-- A comment on one line that ends where it is meant to. -/
  | noted {inner : TypeExpr} {note : String} (h : Tame inner) (hclose : NoClose note.toList)
      (hline : OneLine note) : Tame (.noted inner note)

/-- All types of a declaration have the property. -/
def Statement.All (P : TypeExpr → Prop) : Statement → Prop
  | .interface _ members => ∀ m ∈ members, P m.type
  | .typeAlias _ type => P type

/-- The declarations of tame types under names that can be declared. -/
structure Statement.Tame (s : Statement) : Prop where
  /-- The name can be declared. -/
  name : IsDeclaredName s.name
  /-- The types are tame. -/
  types : s.All TypeExpr.Tame

/-! ## On one line -/

theorem IsDeclaredName.oneLine {name : String} (h : IsDeclaredName name) : OneLine name := by
  obtain ⟨first, rest, hname, hupper, hrest⟩ := h
  rw [OneLine, hname, List.mem_cons, not_or]
  constructor
  · rintro rfl
    cases hupper
  · exact fun hmem => absurd (hrest _ hmem) (by decide)

theorem IsLiteral.oneLine_compact {value : Json} (h : IsLiteral value) : OneLine value.compact := by
  cases h with
  | string s => exact oneLine_quote s
  | number n => exact fun hmem => absurd ((numberShaped_text n).parts _ hmem) (by decide)
  | bool b => cases b <;> decide

theorem oneLine_propertyKey (name : String) : OneLine (Naming.propertyKey name) := by
  rw [Naming.propertyKey]
  split
  · rename_i hshaped
    intro hmem
    cases hname : name.toList with
    | nil =>
      rw [hname] at hmem
      cases hmem
    | cons first rest =>
      rw [hname, Naming.isIdentifierShaped, Bool.and_eq_true, List.all_eq_true] at hshaped
      rw [hname] at hmem
      rcases List.mem_cons.1 hmem with rfl | hmem
      · exact absurd hshaped.1 (by decide)
      · exact absurd (hshaped.2 _ hmem) (by decide)
  · exact oneLine_quote name

theorem oneLine_memberText {name type : String} (optional : Bool) (h : OneLine type) :
    OneLine (memberText name optional type) := by
  rw [memberText, oneLine_append, oneLine_append]
  refine ⟨⟨oneLine_propertyKey name, ?_⟩, h⟩
  cases optional <;> decide

theorem oneLine_memberTexts {members : List (Member TypeExpr)}
    (h : ∀ m ∈ members, OneLine m.type.text) : ∀ text ∈ memberTexts members, OneLine text := by
  induction members with
  | nil => exact List.forall_mem_nil _
  | cons m members ih =>
    obtain ⟨hfirst, hrest⟩ := List.forall_mem_cons.1 h
    exact List.forall_mem_cons.2 ⟨oneLine_memberText m.optional hfirst, ih hrest⟩

theorem oneLine_texts {es : List TypeExpr} (h : ∀ e ∈ es, OneLine e.text) :
    ∀ text ∈ texts es, OneLine text := by
  induction es with
  | nil => exact List.forall_mem_nil _
  | cons e es ih =>
    obtain ⟨hfirst, hrest⟩ := List.forall_mem_cons.1 h
    exact List.forall_mem_cons.2 ⟨hfirst, ih hrest⟩

theorem oneLine_braced {parts : List String} (h : ∀ part ∈ parts, OneLine part) :
    OneLine (braced parts) := by
  rw [braced]
  split
  · decide
  · have hparts : OneLine ("; ".intercalate parts) := oneLine_intercalate (by decide) h
    simp only [oneLine_append]
    exact ⟨⟨by decide, hparts⟩, by decide⟩

/-- **A tame expression is written on one line.** -/
theorem TypeExpr.Tame.oneLine_text {e : TypeExpr} (h : e.Tame) : OneLine e.text := by
  induction h with
  | unknown => decide
  | primitive p => cases p <;> decide
  | literal h => exact h.oneLine_compact
  | name h => exact h.oneLine
  | array _ ih => exact oneLine_append.2 ⟨ih, by decide⟩
  | record _ ih => exact oneLine_append.2 ⟨oneLine_append.2 ⟨by decide, ih⟩, by decide⟩
  | object _ ih => exact oneLine_braced (oneLine_memberTexts ih)
  | union _ ih => exact oneLine_intercalate (by decide) (oneLine_texts ih)
  | group _ ih => exact oneLine_append.2 ⟨oneLine_append.2 ⟨by decide, ih⟩, by decide⟩
  | noted _ _ hline ih =>
    rw [TypeExpr.text, oneLine_append, oneLine_append, oneLine_append]
    exact ⟨⟨⟨ih, by decide⟩, hline⟩, by decide⟩

/-! ## The expressions of a graph -/

variable {g : TypeGraph} {style : Style} {f : TypeId → TypeExpr}

theorem tame_oneOrUnion {es : List TypeExpr} (h : ∀ e ∈ es, e.Tame) : (oneOrUnion es).Tame := by
  rw [oneOrUnion.eq_def]
  split
  · exact h _ List.mem_cons_self
  · exact .union h

theorem tame_literalExpr (value : Json) : (literalExpr value).Tame := by
  cases value with
  | null => exact .primitive .null
  | bool b => exact .literal (.bool b)
  | number n => exact .literal (.number n)
  | string s => exact .literal (.string s)
  | array | object => exact .unknown

theorem tame_ite {e e' : TypeExpr} (he : e.Tame) (he' : e'.Tame) (c : Prop) [Decidable c] :
    (if c then e else e').Tame := by
  split
  · exact he
  · exact he'

theorem tame_membersOf (hf : ∀ id, (f id).Tame) (fields : List Field) :
    ∀ m ∈ membersOf style f fields, m.type.Tame :=
  List.forall_mem_map.2 fun field _ => hf field.type

theorem tame_commonShape (hf : ∀ id, (f id).Tame) (members : List TypeId) :
    (commonShape g style f members).Tame := by
  rw [commonShape.eq_def]
  split
  · exact .primitive .null
  · split
    · exact .object (tame_membersOf hf _)
    · exact .unknown
  · refine tame_ite (.array .unknown) ?_ _
    split
    · exact tame_ite (.primitive _) .unknown _
    · exact .unknown

/-- What stands in a comment is the text, with backslashes in it. -/
theorem mem_of_mem_inComment {text : List Char} {c : Char} (h : c ∈ inComment text)
    (hc : c ≠ '\\') :
    c ∈ text := by
  rw [inComment] at h
  fun_induction replacePair '*' '/' ['*', '\\', '/'] text with
  | case1 a b rest hpair ih =>
    obtain ⟨rfl, rfl⟩ := hpair
    simp only [List.mem_append, List.mem_cons, List.not_mem_nil, or_false, hc, false_or] at h ⊢
    rcases h with (h | h) | h
    · exact .inl h
    · exact .inr (.inl h)
    · exact .inr (.inr (ih h))
  | case2 a b rest hpair ih =>
    rcases List.mem_cons.1 h with rfl | h
    · exact List.mem_cons_self
    · exact List.mem_cons_of_mem _ (ih h)
  | case3 cs hcs => exact h

/-- The comment of a widened union holds its members, which are written on one line, and it ends
behind them. -/
theorem tame_widenedExpr (hf : ∀ id, (f id).Tame) (members : List TypeId) :
    (widenedExpr g style f members).Tame := by
  have hmembers : OneLine (TypeExpr.union (members.map f)).text :=
    TypeExpr.Tame.oneLine_text (.union (List.forall_mem_map.2 fun id _ => hf id))
  have hlisted {text : List Char} : (String.ofList (inComment text)).toList = inComment text :=
    String.toList_ofList
  refine .noted (tame_commonShape hf members) ?_ ?_
  · rw [String.toList_append, hlisted]
    exact .append (noClose_of_notMem (by decide)) (noClose_inComment _) (.inl (by decide))
  · exact oneLine_append.2 ⟨by decide, oneLine_ofList.2 fun hmem =>
      hmembers (mem_of_mem_inComment hmem (by decide))⟩

theorem tame_kindExpr (hf : ∀ id, (f id).Tame) (kind : TypeKind) :
    (kindExpr g style f kind).Tame := by
  cases kind with
  | unknown => exact .unknown
  | primitive p => exact .primitive p
  | object fields => exact .object (tame_membersOf hf fields)
  | map value => exact .record (hf value)
  | array item => exact .array (tame_ite (.group (hf item)) (hf item) _)
  | enumeration values =>
    exact tame_oneOrUnion (List.forall_mem_map.2 fun v _ => tame_literalExpr v)
  | union members =>
    rw [kindExpr]
    split
    · split
      · exact tame_widenedExpr hf members
      · exact tame_oneOrUnion (List.forall_mem_map.2 fun id _ => hf id)
    · exact tame_oneOrUnion (List.forall_mem_map.2 fun id _ => tame_ite (.group (hf id)) (hf id) _)

/-- **The expression for any node is tame** if the names of nodes can be declared. -/
theorem tame_expr (hnames : ∀ id name, g.nameOf id = some name → IsDeclaredName name)
    (style : Style) (id : TypeId) : (expr g style id).Tame :=
  expr_all (fun _ => .unknown) (fun id name hname => .name (hnames id name hname))
    (fun id _ _ hf => tame_kindExpr hf (g.kind id)) id

/-- The declaration of a named node is tame. -/
theorem tame_statement (hnames : ∀ id name, g.nameOf id = some name → IsDeclaredName name)
    {id : TypeId} {s : Statement} (hs : statement? g style id = some s) : s.Tame := by
  obtain ⟨name, hname, rfl⟩ := Option.map_eq_some_iff.1 hs
  have hdeclared := hnames id name hname
  split
  · exact ⟨hdeclared, tame_membersOf (tame_expr hnames style) _⟩
  · exact ⟨hdeclared, tame_kindExpr (tame_expr hnames style) _⟩

end TypedClient.Declaration
