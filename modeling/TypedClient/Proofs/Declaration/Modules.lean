import TypedClient.Proofs.Declaration.Declarable
import TypedClient.Proofs.Declaration.Statements

/-!
# Modules read line by line

Much of an emitted module is fixed text around a few names.  A phrase is such a text cut into
fragments: words, names of members, signs and spaces.  If no two words touch and it does not end in
one, the tokens of a phrase are those of its fragments (`lexes_phrase`).

A module of declarations is put together from lines: those of the declarations that are kept, those
of statements that are skipped, comments and blank lines.  `ReadsAs` says which declarations are
kept of some lines, whatever stands before and behind them, and `parseDeclarations_of_readsAs` that
a module is read as the graph of what is kept of its lines.

* `ReadsAs` is about lines; pieces of code may stand one behind the other;
* `IsMethod` and `ReadsBody` are about interfaces: one that has a method is skipped.
-/

set_option autoImplicit false

namespace TypedClient.Declaration

/-! ## Phrases -/

/-- A fragment of a line. -/
inductive Fragment where
  /-- A word. -/
  | word (text : String)
  /-- The name of a member, in quotes where it needs them. -/
  | key (name : String)
  /-- A sign. -/
  | sign (c : Char)
  /-- A space. -/
  | space

namespace Fragment

/-- The characters of a fragment. -/
def chars : Fragment → List Char
  | word text => text.toList
  | key name => (Naming.propertyKey name).toList
  | sign c => [c]
  | space => [' ']

/-- The token of a fragment; a space has none. -/
def token? : Fragment → Option Token
  | word text => some (.ident text)
  | key name => some (keyToken name)
  | sign c => some (.punct c)
  | space => none

/-- Whether a letter behind the fragment would go on it. -/
def isOpen : Fragment → Bool
  | word _ | key _ => true
  | sign _ | space => false

/-- The fragment is what it is taken for: a word has the shape of one, and a sign stands for itself
and ends a word. -/
def Fits : Fragment → Prop
  | word text => Naming.isIdentifierShaped text.toList = true
  | sign c => c ∈ signs ∧ c ≠ '=' ∧ isNumberPart c = false ∧ Naming.isIdentifierPart c = false
  | key _ | space => True

end Fragment

/-- All fragments fit, and behind each word stands one that ends it. -/
def Phrase : List Fragment → Prop
  | [] => True
  | p :: rest =>
    p.Fits ∧ (p.isOpen = true → (rest.head?.map Fragment.isOpen) = some false) ∧ Phrase rest

theorem Fragment.Fits.lexes {p : Fragment} (h : p.Fits) (hclosed : p.isOpen = false) :
    Lexes p.chars (some p.token?.toList) := by
  cases p with
  | word text => cases hclosed
  | key name => cases hclosed
  | sign c => exact lexes_sign h.1 h.2.1
  | space => exact lexes_blank isBlank_space

theorem Fragment.Fits.lexesBefore {p : Fragment} (h : p.Fits) :
    LexesBefore p.chars (some p.token?.toList) := by
  cases p with
  | word text => exact lexesBefore_word h
  | key name => exact lexesBefore_key name
  | sign c => exact (h.lexes rfl).before
  | space => exact (h.lexes rfl).before

/-- A fragment that no letter would go on starts with a character that ends a word. -/
theorem Fragment.Fits.starts {p : Fragment} (h : p.Fits) (hclosed : p.isOpen = false) :
    ∃ c cs, p.chars = c :: cs ∧ isNumberPart c = false ∧ Naming.isIdentifierPart c = false := by
  cases p with
  | word text => cases hclosed
  | key name => cases hclosed
  | sign c => exact ⟨c, [], rfl, h.2.2⟩
  | space => exact ⟨' ', [], rfl, by decide⟩

/-- **The tokens of a phrase** are those of its fragments. -/
theorem lexes_phrase {fragments : List Fragment} (h : Phrase fragments) :
    Lexes (fragments.flatMap Fragment.chars) (some (fragments.filterMap Fragment.token?)) := by
  induction fragments with
  | nil => exact lexes_nil
  | cons p rest ih =>
    obtain ⟨hfits, hends, hrest⟩ := h
    have hlater := ih hrest
    have htokens : some ((p :: rest).filterMap Fragment.token?)
        = joined (some p.token?.toList) (some (rest.filterMap Fragment.token?)) := by
      rw [List.filterMap_cons]
      cases p.token? <;> rfl
    rw [List.flatMap_cons, htokens]
    cases hopen : p.isOpen with
    | false => exact (hfits.lexes hopen).append hlater
    | true =>
      -- A word is read to its end only if something follows that ends it.
      obtain ⟨q, more, rfl⟩ : ∃ q more, rest = q :: more := by
        cases rest with
        | nil => cases hends hopen
        | cons q more => exact ⟨q, more, rfl⟩
      have hclosed : q.isOpen = false := Option.some.inj (hends hopen)
      obtain ⟨c, cs, hq, hstop⟩ := hrest.1.starts hclosed
      rw [List.flatMap_cons, hq, List.cons_append] at hlater ⊢
      exact hfits.lexesBefore.append hlater hstop

/-- A line that is written as a phrase. -/
theorem lexes_line {line : String} {fragments : List Fragment}
    (hline : line.toList = fragments.flatMap Fragment.chars) (h : Phrase fragments) :
    Lexes (lineChars [line]) (some (fragments.filterMap Fragment.token?)) := by
  have hall := (lexes_phrase h).append (lexes_blank isBlank_newline)
  rw [joined_some, List.append_nil] at hall
  rw [lineChars, List.flatMap_singleton, hline]
  exact hall

/-! ## Lines -/

open TypedClient.Types

/-- The lines are cut into tokens that are read statement by statement, and these declarations are
kept. -/
def ReadsAs (code : List String) (statements : List Statement) : Prop :=
  ∃ chunks : List (Tokens × Option Statement),
    Lexes (lineChars code) (some (chunks.flatMap Prod.fst)) ∧
      (∀ chunk ∈ chunks, ReadsStatement chunk.1 chunk.2) ∧ chunks.filterMap Prod.snd = statements

theorem readsAs_nil : ReadsAs [] [] := ⟨[], lexes_nil, List.forall_mem_nil _, rfl⟩

/-- Lines without tokens, such as comments. -/
theorem readsAs_of_lexes_nil {code : List String} (h : Lexes (lineChars code) (some [])) :
    ReadsAs code [] := ⟨[], h, List.forall_mem_nil _, rfl⟩

theorem readsAs_blank : ReadsAs [""] [] := readsAs_of_lexes_nil (lexes_blank isBlank_newline)

/-- The lines of one statement. -/
theorem readsAs_statement {code : List String} {tokens : Tokens} {statement : Option Statement}
    (hlexes : Lexes (lineChars code) (some tokens)) (h : ReadsStatement tokens statement) :
    ReadsAs code statement.toList := by
  refine ⟨[(tokens, statement)], ?_, List.forall_mem_singleton.2 h, ?_⟩
  · rwa [List.flatMap_singleton]
  · cases statement <;> rfl

theorem ReadsAs.append {code more : List String} {ss ts : List Statement} (h : ReadsAs code ss)
    (h' : ReadsAs more ts) : ReadsAs (code ++ more) (ss ++ ts) := by
  obtain ⟨first, hlexes, hreads, rfl⟩ := h
  obtain ⟨second, hlexes', hreads', rfl⟩ := h'
  refine ⟨first ++ second, ?_, List.forall_mem_append.2 ⟨hreads, hreads'⟩, List.filterMap_append⟩
  rw [lineChars_append, List.flatMap_append]
  exact hlexes.append hlexes'

/-- Pieces of code one behind the other. -/
theorem readsAs_flatMap {α : Type} {f : α → List String} {kept : α → List Statement} {xs : List α}
    (h : ∀ x ∈ xs, ReadsAs (f x) (kept x)) : ReadsAs (xs.flatMap f) (xs.flatMap kept) := by
  induction xs with
  | nil => exact readsAs_nil
  | cons x xs ih =>
    exact (h x List.mem_cons_self).append (ih fun y hy => h y (List.mem_cons_of_mem _ hy))

/-- Lines of which nothing is kept. -/
theorem readsAs_lines {code : List String} (h : ∀ line ∈ code, ReadsAs [line] []) :
    ReadsAs code [] := by
  have hall := readsAs_flatMap h
  rwa [← List.map_eq_flatMap, List.map_id', List.flatMap_eq_nil_iff.2 fun _ _ => rfl] at hall

/-- **A module is read as the graph of the declarations that are kept** of its lines. -/
theorem parseDeclarations_of_readsAs {code : List String} {statements : List Statement}
    (h : ReadsAs code statements) :
    parseDeclarations (Emit.textOf (Emit.tidy code)) = .ok (graphOf statements) := by
  obtain ⟨chunks, hlexes, hreads, rfl⟩ := h
  exact parseDeclarations_of_tokens ((Emit.tokens?_tidy code).trans hlexes.tokens) hreads

/-! ## Interfaces with methods -/

/-- The tokens of a method from its parentheses on: they are skipped as one member. -/
structure IsMethod (tokens : Tokens) : Prop where
  /-- It starts with an opening parenthesis. -/
  starts : tokens.head? = some (.punct '(')
  /-- It ends where the reader of members looks for the next. -/
  skips : ∀ rest, skipMember 0 (tokens ++ rest) = rest

/-- A method is skipped, and of an interface that has one nothing is kept. -/
theorem readMembers_method {tokens : Tokens} (h : IsMethod tokens) (name : String) (optional : Bool)
    (steps : Nat) (rest : Tokens) :
    readMembers (steps + 1)
        (keyToken name :: (if optional then [.punct '?'] else []) ++ tokens ++ rest)
      = (readMembers steps rest).map fun (_, after) => (none, after) := by
  obtain ⟨first, hfirst⟩ : ∃ first, tokens = .punct '(' :: first := by
    cases tokens with
    | nil => cases h.starts
    | cons t ts => exact ⟨ts, by rw [Option.some.inj h.starts]⟩
  have hskips := h.skips rest
  have hkey : keyToken name = .ident name ∨ keyToken name = .text name := by
    rw [keyToken]
    split
    · exact .inl rfl
    · exact .inr rfl
  rw [hfirst] at hskips ⊢
  rw [List.cons_append] at hskips
  have hmark : takeSign '?' (.punct '(' :: (first ++ rest)) =
      (false, .punct '(' :: (first ++ rest)) :=
    takeSign_of_ne (by decide) _
  rcases hkey with hkey | hkey <;> cases optional <;>
    simp only [hkey, if_true, if_false, List.nil_append, List.cons_append, Bool.false_eq_true,
      readMembers, hmark, takeSign_self, hskips, bind, Except.bind] <;>
  · cases readMembers steps rest <;> rfl

/-- The body of an interface, its closing brace included, has these members. -/
def ReadsBody (body : Tokens) (members : Members) : Prop :=
  ∀ steps rest, 3 * body.length ≤ steps → readMembers steps (body ++ rest) = .ok (members, rest)

theorem readsBody_end : ReadsBody [.punct '\x7d'] (some []) := by
  intro steps rest hsteps
  obtain ⟨s, rfl⟩ : ∃ s, steps = s + 1 := ⟨steps - 1, by simp at hsteps; omega⟩
  rfl

theorem ReadsBody.method {body : Tokens} {members : Members} (h : ReadsBody body members)
    {tokens : Tokens} (htokens : IsMethod tokens) (name : String) (optional : Bool) :
    ReadsBody (keyToken name :: (if optional then [.punct '?'] else []) ++ tokens ++ body)
      none := by
  intro steps rest hsteps
  simp only [List.length_append, List.length_cons] at hsteps
  obtain ⟨s, rfl⟩ : ∃ s, steps = s + 1 := ⟨steps - 1, by omega⟩
  rw [List.append_assoc, readMembers_method htokens, h s rest (by omega)]
  rfl

theorem ReadsBody.field {body : Tokens} {members : Members} (h : ReadsBody body members)
    {type : TypeExpr} (htype : ReadsType type) (name : String) (optional : Bool) :
    ReadsBody (memberTokens name optional type.tokens ++ .punct ';' :: body)
      (members.map (⟨name, optional, type⟩ :: ·)) := by
  intro steps rest hsteps
  have hlength : type.tokens.length < (memberTokens name optional type.tokens).length := by
    simp only [memberTokens, List.length_append, List.length_cons]
    omega
  simp only [List.length_append, List.length_cons] at hsteps
  obtain ⟨s, rfl⟩ : ∃ s, steps = s + 1 := ⟨steps - 1, by omega⟩
  rw [List.append_assoc, List.cons_append,
    readMembers_member htype name optional (by omega) (avoids_cons (by simp) _)]
  simp only [dropEnd, takeSign_self, h s rest (by omega)]
  rfl

/-- An interface is read from the tokens of its body; it is skipped if one of its members is a
method. -/
theorem ReadsBody.statement {body : Tokens} {members : Members} (h : ReadsBody body members)
    (name : String) :
    ReadsStatement ([.ident "export", .ident "interface", .ident name, .punct '\x7b'] ++ body)
      (members.map (.interface name)) := by
  refine ⟨Nat.succ_pos _, fun rest => ?_⟩
  have hbody := h (typeSteps (.punct '\x7b' :: (body ++ rest))) rest (by simp [typeSteps]; omega)
  simp only [List.cons_append, List.nil_append, readStatement]
  rw [readInterface.eq_def]
  simp only [expectSign_self, hbody, bind, Except.bind]
  rfl

end TypedClient.Declaration
