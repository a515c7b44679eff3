import TypedClient.Proofs.Declaration.Comments
import TypedClient.Proofs.Declaration.Reading
import TypedClient.Proofs.Lists

/-!
# Declarations read from their text

A module is read statement by statement.  `ReadsStatement` says that the reader takes certain tokens
as one statement, which it keeps or skips, and `statementsFrom_chunks` adds such pieces up.

* `Statement.tokens` lists the tokens of a declaration, and `Statement.WellFormed.reads` says that a
  well-formed declaration is read from them;
* `lexes_interfaceLines` and `lexes_aliasLine` say that the lines of a declaration have its tokens;
* `toOption_readDeclarations` is reading without the wording of errors.
-/

set_option autoImplicit false

namespace TypedClient.Declaration

open TypedClient.Text

/-! ## Well-formed declarations -/

variable {known : String → Prop}

/-- The declarations whose text is read back. -/
inductive Statement.WellFormed (known : String → Prop) : Statement → Prop
  /-- An object type. -/
  | interface {name : String} {members : List (Member TypeExpr)} (hname : IsTypeName name)
      (h : ∀ m ∈ members, m.type.WellFormed known true) : WellFormed known (.interface name members)
  /-- An alias. -/
  | typeAlias {name : String} {type : TypeExpr} (hname : IsTypeName name)
      (h : type.WellFormed known true) : WellFormed known (.typeAlias name type)

/-- The declarations whose text has the tokens of the declaration. -/
inductive Statement.Legible (known : String → Prop) : Statement → Prop
  /-- An object type. -/
  | interface {name : String} {members : List (Member TypeExpr)} (hname : IsTypeName name)
      (h : ∀ m ∈ members, m.type.Legible known) : Legible known (.interface name members)
  /-- An alias. -/
  | typeAlias {name : String} {type : TypeExpr} (hname : IsTypeName name) (h : type.Legible known) :
      Legible known (.typeAlias name type)

theorem Statement.WellFormed.legible {s : Statement} (h : s.WellFormed known) :
    s.Legible known := by
  cases h with
  | interface hname h => exact .interface hname fun m hm => (h m hm).legible
  | typeAlias hname h => exact .typeAlias hname h.legible

/-- The tokens of a declaration. -/
def Statement.tokens : Statement → List Token
  | .interface name members =>
    [.ident "export", .ident "interface", .ident name, .punct '\x7b'] ++
      bodyTokens true (tokensOfMembers members)
  | .typeAlias name type =>
    [.ident "export", .ident "type", .ident name, .punct '='] ++ type.tokens ++ [.punct ';']

/-- The declaration with the number that its text reads as in place of each number. -/
def Statement.reread? : Statement → Option Statement
  | .interface name members => (rereadMembers? members).map (.interface name)
  | .typeAlias name type => type.reread?.map (.typeAlias name)

/-! ## Reading anew keeps the form -/

theorem IsLiteral.reread {value other : Json} (h : IsLiteral value)
    (hother : rereadLiteral? value = some other) : IsLiteral other := by
  cases h with
  | string | bool => cases hother; constructor
  | number n =>
    obtain ⟨m, -, rfl⟩ := Option.map_eq_some_iff.1 hother
    exact .number m

theorem TypeExpr.WellFormed.reread {whole : Bool} {e other : TypeExpr}
    (h : e.WellFormed known whole) (hother : e.reread? = some other) :
    other.WellFormed known whole := by
  induction h generalizing other with
  | unknown => cases hother; exact .unknown
  | primitive p => cases hother; exact .primitive p
  | literal h =>
    obtain ⟨value, hvalue, rfl⟩ := Option.map_eq_some_iff.1 hother
    exact .literal (h.reread hvalue)
  | name h hknown => cases hother; exact .name h hknown
  | array _ ih =>
    obtain ⟨item, hitem, rfl⟩ := Option.map_eq_some_iff.1 hother
    exact .array (ih hitem)
  | record _ ih =>
    obtain ⟨value, hvalue, rfl⟩ := Option.map_eq_some_iff.1 hother
    exact .record (ih hvalue)
  | object _ ih =>
    obtain ⟨members, hmembers, rfl⟩ := Option.map_eq_some_iff.1 hother
    exact .object (forall₂_right (rereadMembers?_eq_some hmembers) fun m hm n hn => ih m hm hn.2.2)
  | union hlength _ ih =>
    obtain ⟨members, hmembers, rfl⟩ := Option.map_eq_some_iff.1 hother
    have hall := rereadAll?_eq_some hmembers
    exact .union (hall.length_eq ▸ hlength) (forall₂_right hall fun e he f hf => ih e he hf)
  | group _ ih =>
    obtain ⟨inner, hinner, rfl⟩ := Option.map_eq_some_iff.1 hother
    exact .group (ih hinner)

theorem Statement.WellFormed.reread {s other : Statement} (h : s.WellFormed known)
    (hother : s.reread? = some other) : other.WellFormed known := by
  cases h with
  | interface hname h =>
    obtain ⟨members, hmembers, rfl⟩ := Option.map_eq_some_iff.1 hother
    exact .interface hname
      (forall₂_right (rereadMembers?_eq_some hmembers) fun m hm n hn => (h m hm).reread hn.2.2)
  | typeAlias hname h =>
    obtain ⟨type, htype, rfl⟩ := Option.map_eq_some_iff.1 hother
    exact .typeAlias hname (h.reread htype)

/-! ## Reading statements -/

/-- The tokens are read as one statement, whatever follows; it is skipped if there is none. -/
structure ReadsStatement (tokens : Tokens) (statement : Option Statement) : Prop where
  /-- There is a token. -/
  pos : 0 < tokens.length
  /-- The statement ends behind the tokens. -/
  reads : ∀ rest, readStatement (tokens ++ rest) = .ok (statement, rest)

theorem Statement.WellFormed.reads {s : Statement} (h : s.WellFormed known) :
    ReadsStatement s.tokens (some s) := by
  cases h with
  | @interface name members hname h =>
    refine ⟨Nat.succ_pos _, fun rest => ?_⟩
    have hmembers := readMembers_bodyTokens true (fun m hm => (h m hm).reads)
    generalize hbody : bodyTokens true (tokensOfMembers members) = body at hmembers
    have hbody' := hmembers (typeSteps (.punct '\x7b' :: (body ++ rest))) rest
      (by simp [typeSteps]; omega)
    simp only [Statement.tokens, hbody, List.cons_append, List.nil_append, readStatement]
    rw [readInterface.eq_def]
    simp only [expectSign_self, hbody', bind, Except.bind]
    rfl
  | @typeAlias name type hname h =>
    refine ⟨Nat.succ_pos _, fun rest => ?_⟩
    have htype : ReadsType type := h.reads
    have htype' := htype (typeSteps (.punct '=' :: (type.tokens ++ .punct ';' :: rest)))
      (.punct ';' :: rest) (by simp [typeSteps]; omega) (avoids_cons (by simp) _)
    simp only [Statement.tokens, List.append_assoc, List.cons_append, List.nil_append,
      readStatement]
    rw [readAlias]
    simp only [expectSign_self, htype', dropSign, takeSign_self, bind, Except.bind]
    rfl

/-- Statements that stand one behind the other are read one by one. -/
theorem statementsFrom_chunks {chunks : List (Tokens × Option Statement)}
    (h : ∀ chunk ∈ chunks, ReadsStatement chunk.1 chunk.2) (steps : Nat)
    (hsteps : chunks.length ≤ steps) :
    statementsFrom steps (chunks.flatMap Prod.fst) = .ok (chunks.filterMap Prod.snd) := by
  induction chunks generalizing steps with
  | nil => cases steps <;> rfl
  | cons chunk chunks ih =>
    obtain ⟨s, rfl⟩ : ∃ s, steps = s + 1 := ⟨steps - 1, by simp at hsteps; omega⟩
    obtain ⟨hpos, hreads⟩ := h chunk List.mem_cons_self
    have hlater := ih (fun c hc => h c (List.mem_cons_of_mem _ hc)) s (by simpa using hsteps)
    have hfirst := hreads (chunks.flatMap Prod.fst)
    rw [List.flatMap_cons, List.filterMap_cons]
    obtain ⟨t, ts, hts⟩ : ∃ t ts, chunk.1 = t :: ts := List.exists_cons_of_length_pos hpos
    rw [hts, List.cons_append] at hfirst ⊢
    rw [statementsFrom]
    · simp only [hfirst, hlater, bind, Except.bind]
      cases chunk.2 <;> rfl
    · simp

/-- The statements of a module that consists of the given pieces. -/
theorem readStatements_chunks {chunks : List (Tokens × Option Statement)}
    (h : ∀ chunk ∈ chunks, ReadsStatement chunk.1 chunk.2) :
    readStatements (chunks.flatMap Prod.fst) = .ok (chunks.filterMap Prod.snd) := by
  refine statementsFrom_chunks h _ ?_
  induction chunks with
  | nil => exact Nat.zero_le _
  | cons chunk chunks ih =>
    have hpos := (h chunk List.mem_cons_self).pos
    have := ih fun c hc => h c (List.mem_cons_of_mem _ hc)
    simp only [List.flatMap_cons, List.length_cons, List.length_append]
    omega

/-- Reading without the wording of errors. -/
theorem toOption_readDeclarations (text : String) :
    (readDeclarations text).toOption
      = (tokens? text.toList).bind fun tokens => (readStatements tokens).toOption := by
  rw [readDeclarations, ← toOption_tokensFrom text.toList.length _ _ (Nat.le_refl _), tokenize]
  cases tokensFrom text.toList.length text.toList.length text.toList <;> rfl

/-! ## The lines of declarations -/

/-- A word and a space. -/
theorem lexes_wordSpace {w : String} (h : Naming.isIdentifierShaped w.toList = true) :
    Lexes (w.toList ++ [' ']) (some [.ident w]) :=
  (lexesBefore_word h).append (lexes_blank isBlank_space) (by decide)

theorem lexes_newline : Lexes ['\n'] (some []) := lexes_blank isBlank_newline

/-- The lines of an interface around those of its members. -/
theorem lexes_interfaceLines {name : String} (hname : Naming.isIdentifierShaped name.toList = true)
    {body : List String} {ts : Option (List Token)} (h : Lexes (lineChars body) ts) :
    Lexes (lineChars (interfaceLines name body))
      (joined (some [.ident "export", .ident "interface", .ident name, .punct '\x7b'])
        (joined ts (some [.punct '\x7d']))) := by
  have hexport : Lexes ("export".toList ++ [' ']) (some [.ident "export"]) :=
    lexes_wordSpace (by decide)
  have hinterface : Lexes ("interface".toList ++ [' ']) (some [.ident "interface"]) :=
    lexes_wordSpace (by decide)
  have hopen := (lexes_wordSpace hname).append (lexes_sign (c := '\x7b') (by decide) (by decide))
  have hclose := (lexes_sign (c := '\x7d') (by decide) (by decide)).append lexes_newline
  have hhead := hexport.append (hinterface.append hopen)
  rw [interfaceLines]
  cases body with
  | nil =>
    rw [← h.tokens]
    simpa [lineChars] using hhead.append hclose
  | cons line lines =>
    have hall := hhead.append (lexes_newline.append (h.append hclose))
    simpa [lineChars] using hall

/-- The line of an alias. -/
theorem lexes_aliasLine {name : String} {type : TypeExpr} (hname : IsTypeName name)
    (h : type.Legible known) :
    Lexes (lineChars (Statement.typeAlias name type).lines)
      ((Statement.typeAlias name type).reread?.map Statement.tokens) := by
  have hexport : Lexes ("export".toList ++ [' ']) (some [.ident "export"]) :=
    lexes_wordSpace (by decide)
  have hword : Lexes ("type".toList ++ [' ']) (some [.ident "type"]) :=
    lexes_wordSpace (by decide)
  have htype := (lexesBefore_expr h).append
    ((lexes_sign (c := ';') (by decide) (by decide)).append lexes_newline) (by decide)
  have hall := hexport.append (hword.append ((lexes_wordSpace hname.shaped).append
    (lexes_equals.append htype)))
  rw [Statement.reread?, Option.map_map]
  simpa [lineChars, Statement.lines, Function.comp_def, Statement.tokens] using hall

/-- The tokens of the lines of members. -/
def memberLineTokens (members : List (Member TypeExpr)) : List Token :=
  (tokensOfMembers members).flatMap (· ++ [.punct ';'])

theorem bodyTokens_true (parts : List (List Token)) :
    bodyTokens true parts = parts.flatMap (· ++ [.punct ';']) ++ [.punct '\x7d'] := by
  induction parts with
  | nil => rfl
  | cons part parts ih => simp [bodyTokens, ih]

/-- The lines of members, each below comment lines of its own. -/
theorem lexes_memberLines {notes : List (List String)} {members : List (Member TypeExpr)}
    (hlength : notes.length = members.length)
    (hnotes : ∀ note ∈ notes, Lexes (lineChars note) (some []))
    (h : ∀ m ∈ members, m.type.Legible known) :
    Lexes (lineChars ((notes.zip (memberTexts members)).flatMap fun (note, member) =>
        note ++ [memberLine member]))
      ((rereadMembers? members).map memberLineTokens) := by
  induction members generalizing notes with
  | nil =>
    rw [memberTexts, List.zip_nil_right]
    exact lexes_nil
  | cons m members ih =>
    cases notes with
    | nil => cases hlength
    | cons note notes =>
      have hnote := hnotes note List.mem_cons_self
      have hmember := lexesBefore_member m.name m.optional
        (lexesBefore_expr (h m List.mem_cons_self))
      have hlater := ih (by simpa using hlength)
        (fun n hn => hnotes n (List.mem_cons_of_mem _ hn))
        fun n hn => h n (List.mem_cons_of_mem _ hn)
      have hspace := lexes_blank isBlank_space
      have hline := (hspace.append hspace).append (hmember.append
        ((lexes_sign (c := ';') (by decide) (by decide)).append lexes_newline) (by decide))
      have hall := hnote.append (hline.append hlater)
      rw [memberTexts, List.zip_cons_cons, List.flatMap_cons, lineChars_append, lineChars_append,
        rereadMembers?]
      cases hreread : m.type.reread? <;> cases hothers : rereadMembers? members <;>
        simpa [hreread, hothers, lineChars, memberLine, memberLineTokens,
          tokensOfMembers] using hall

/-- The lines of members without comments. -/
theorem lexes_plainMemberLines {members : List (Member TypeExpr)}
    (h : ∀ m ∈ members, m.type.Legible known) :
    Lexes (lineChars ((memberTexts members).map memberLine))
      ((rereadMembers? members).map memberLineTokens) := by
  have hnotes : ∀ note ∈ members.map fun _ => ([] : List String),
      Lexes (lineChars note) (some []) := by simp [lineChars, lexes_nil]
  have hall := lexes_memberLines (by simp) hnotes h
  have hlines : ((members.map fun _ => ([] : List String)).zip (memberTexts members)).flatMap
      (fun (note, member) => note ++ [memberLine member])
        = (memberTexts members).map memberLine := by
    clear h hall hnotes
    induction members with
    | nil => rfl
    | cons m members ih =>
      rw [memberTexts, List.map_cons, List.map_cons, List.zip_cons_cons, List.flatMap_cons, ih]
      rfl
  rwa [hlines] at hall

/-- The lines of an interface, given that those of its members have their tokens. -/
theorem lexes_interface {name : String} (hname : IsTypeName name) {members : List (Member TypeExpr)}
    {body : List String}
    (h : Lexes (lineChars body) ((rereadMembers? members).map memberLineTokens)) :
    Lexes (lineChars (interfaceLines name body))
      ((Statement.interface name members).reread?.map Statement.tokens) := by
  have hall := lexes_interfaceLines hname.shaped h
  rw [joined_map_some, joined_some_map] at hall
  rw [Statement.reread?, Option.map_map]
  convert hall using 3 with ms
  rw [Function.comp_apply, Statement.tokens, bodyTokens_true, memberLineTokens]

/-- **The lines of a legible declaration have its tokens**, comments for the members left out. -/
theorem lexes_commentedInterface {name : String} {members : List (Member TypeExpr)}
    {notes : List (List String)} (hlength : notes.length = members.length)
    (hnotes : ∀ note ∈ notes, Lexes (lineChars note) (some []))
    (h : (Statement.interface name members).Legible known) :
    Lexes (lineChars (interfaceLines name ((notes.zip (memberTexts members)).flatMap
        fun (note, member) => note ++ [memberLine member])))
      ((Statement.interface name members).reread?.map Statement.tokens) := by
  cases h with
  | interface hname h => exact lexes_interface hname (lexes_memberLines hlength hnotes h)

/-- The lines of a legible declaration have its tokens. -/
theorem lexes_statementLines {s : Statement} (h : s.Legible known) :
    Lexes (lineChars s.lines) (s.reread?.map Statement.tokens) := by
  cases h with
  | typeAlias hname h => exact lexes_aliasLine hname h
  | interface hname h => exact lexes_interface hname (lexes_plainMemberLines h)

end TypedClient.Declaration
