import TypedClient.Proofs.Declaration.Tame
import TypedClient.Proofs.Emit.DeclaredTypes
import TypedClient.Proofs.Script.Code

/-!
# The comments of declarations

What a schema says in words stands in doc comments, and the members of a widened union in a comment
behind the type.

* `docText` is a doc comment as it is meant, and `TypeExpr.comments` are the comments in a type
  expression; `nodeComments` and `declaredComments` are those of a named type and of all
  declarations;
* `scans_docComment` and `Statement.Tame.scans` say that a scanner finds just these;
* `Nameable.exists_declarationsBelow` says so of the declarations of a client, below their first
  line.
-/

set_option autoImplicit false

namespace TypedClient.Declaration

open TypedClient.Script TypedClient.Text TypedClient.Types TypedClient.Emit

/-! ## Comments that are meant -/

mutual

/-- The comments in a type expression, in order. -/
def TypeExpr.comments : TypeExpr → List String
  | .unknown | .primitive _ | .literal _ | .name _ => []
  | .array inner | .record inner | .group inner => inner.comments
  | .object members => memberComments members
  | .union members => alternativeComments members
  | .noted inner note => inner.comments ++ ["/* " ++ note ++ " */"]

/-- The comments in type expressions. -/
def alternativeComments : List TypeExpr → List String
  | [] => []
  | e :: rest => e.comments ++ alternativeComments rest

/-- The comments in the types of members. -/
def memberComments : List (Member TypeExpr) → List String
  | [] => []
  | ⟨_, _, type⟩ :: rest => type.comments ++ memberComments rest

end

/-- The comments in a declaration. -/
def Statement.comments : Statement → List String
  | .interface _ members => memberComments members
  | .typeAlias _ type => type.comments

/-- A doc comment, from its first mark to its last. -/
def docText (text : Option String) (indent : String) : List String :=
  match docComment text indent with
  | [] => []
  | lines => [String.ofList (trimStart ("\n".intercalate lines).toList)]

variable {e : TypeExpr} {cs last : List Char} {inner : List String} {sep : String}
  {f g : List String}

/-! ## Doc comments -/

theorem foldl_extend (h : '\n' ∉ cs) (text : List Char) : cs.foldl extend text = text ++ cs := by
  induction cs generalizing text with
  | nil => exact (List.append_nil text).symm
  | cons c cs ih =>
    rw [List.mem_cons, not_or] at h
    rw [List.foldl_cons, extend_of_ne (Ne.symm h.1), ih h.2, List.append_assoc]
    rfl

theorem foldl_extend_lineChars (h : ∀ line ∈ inner, EndsVisibly line) (text : List Char) :
    (lineChars inner).foldl extend text = text ++ lineChars inner := by
  induction inner generalizing text with
  | nil => exact (List.append_nil text).symm
  | cons line inner ih =>
    obtain ⟨⟨w, c, hline, hw, hc, hblank⟩, hinner⟩ := List.forall_mem_cons.1 h
    have hone : '\n' ∉ line.toList := by simp [hline, hw, Ne.symm hc]
    have hend : extend (text ++ line.toList) '\n' = text ++ line.toList ++ ['\n'] := by
      rw [extend, if_pos rfl, hline, ← List.append_assoc, trimEnd_append_of_not_blank hblank]
    rw [lineChars, List.flatMap_cons, List.foldl_append, List.foldl_append, foldl_extend hone,
      List.foldl_cons, List.foldl_nil, hend, ← lineChars, ih hinner]
    simp

/-- A comment is found as it stands there. -/
theorem IsCommentBody.scans (h : IsCommentBody inner last) :
    Scans ('/' :: '*' :: (lineChars inner ++ last ++ ['*', '/']))
      [String.ofList ('/' :: '*' :: (lineChars inner ++ last ++ ['*', '/']))] := by
  have hscans := scans_block h.noClose
  rw [List.foldl_append, foldl_extend_lineChars h.visible, foldl_extend h.oneLine] at hscans
  simpa using hscans

theorem scans_docComment (text : Option String) {indent : String}
    (hindent : ∀ c ∈ indent.toList, c = ' ') :
    Scans (lineChars (docComment text indent)) (docText text indent) := by
  have hquiet : Scans indent.toList [] := scans_plain fun c hc => by rw [hindent c hc]; decide
  rcases docComment_eq text (isIndent_of_spaces hindent) with hnil | ⟨inner, last, hbody, hchars⟩
  · rw [docText, hnil]
    exact scans_nil
  · have hne : docComment text indent ≠ [] := by
      intro hnil
      rw [hnil] at hchars
      simp [lineChars] at hchars
    have hspaces : indent.toList.dropWhile isBlank = [] := by
      rw [List.dropWhile_eq_nil_iff]
      exact fun c hc => hindent c hc ▸ isBlank_space
    have htext : docText text indent =
        [String.ofList ('/' :: '*' :: (lineChars inner ++ last ++ ['*', '/']))] := by
      have hended := ended_map_toList hne
      rw [← lineChars_eq, hchars] at hended
      obtain ⟨line, lines, hlines⟩ := List.exists_cons_of_ne_nil hne
      rw [docText, hlines]
      rw [hlines] at hended
      dsimp only
      rw [List.append_cancel_right hended, trimStart, List.dropWhile_append, hspaces]
      simp [isBlank_slash]
    rw [htext, hchars]
    exact (hquiet.append hbody.scans).append scans_newline

/-! ## Type expressions -/

theorem quiet_name {name : String} (h : IsDeclaredName name) : Quiet name :=
  quiet_word (isIdentifierPart_of_isDeclaredName h)

theorem quiet_of_isWord {text : String} (h : IsWord text) : Quiet text := by
  refine quiet_word fun c hc => ?_
  rw [IsWord] at h
  cases htext : text.toList with
  | nil =>
    rw [htext] at hc
    cases hc
  | cons first rest =>
    rw [htext, Naming.isIdentifierShaped, Bool.and_eq_true, List.all_eq_true] at h
    rw [htext] at hc
    rcases List.mem_cons.1 hc with rfl | hc
    · have hstart := h.1
      rw [Naming.isIdentifierStart] at hstart
      rw [Naming.isIdentifierPart, Char.isAlphanum]
      simp only [Bool.or_eq_true] at hstart ⊢
      exact hstart.imp_left fun h => h.imp_left .inl
    · exact h.2 c hc

theorem quiet_propertyKey (name : String) : Quiet (Naming.propertyKey name) := by
  rw [Naming.propertyKey]
  split
  · exact quiet_of_isWord ‹_›
  · exact quiet_quote name

theorem quiet_compact {value : Json} (h : IsLiteral value) : Quiet value.compact := by
  cases h with
  | string s => exact quiet_quote s
  | number n =>
    refine scans_plain fun c hc => ?_
    have hpart := (numberShaped_text n).parts c hc
    have hne (d : Char) (hd : isNumberPart d = false) : c ≠ d := by
      rintro rfl
      rw [hpart] at hd
      cases hd
    simp only [isPlain, Bool.and_eq_true, bne_iff_ne]
    exact ⟨⟨⟨⟨⟨hne _ (by decide), hne _ (by decide)⟩, hne _ (by decide)⟩, hne _ (by decide)⟩,
      hne _ (by decide)⟩, hne _ (by decide)⟩
  | bool b => cases b <;> exact quiet_literal rfl

theorem texts_eq (es : List TypeExpr) : texts es = es.map TypeExpr.text := by
  induction es with
  | nil => rfl
  | cons e es ih => rw [texts, ih, List.map_cons]

theorem alternativeComments_eq (es : List TypeExpr) :
    alternativeComments es = es.flatMap TypeExpr.comments := by
  induction es with
  | nil => rfl
  | cons e es ih => rw [alternativeComments, ih, List.flatMap_cons]

theorem memberTexts_eq (members : List (Member TypeExpr)) :
    memberTexts members = members.map fun m => memberText m.name m.optional m.type.text := by
  induction members with
  | nil => rfl
  | cons m members ih => rw [memberTexts, ih, List.map_cons]

theorem memberComments_eq (members : List (Member TypeExpr)) :
    memberComments members = members.flatMap fun m => m.type.comments := by
  induction members with
  | nil => rfl
  | cons m members ih => rw [memberComments, ih, List.flatMap_cons]

/-- Parts in braces, with semicolons between them. -/
theorem scans_braced {α : Type} {xs : List α} {t : α → String} {found : α → List String}
    (h : ∀ x ∈ xs, Scans (t x).toList (found x)) :
    Scans (braced (xs.map t)).toList (xs.flatMap found) := by
  rw [braced]
  split
  · rename_i hempty
    rw [List.isEmpty_iff, List.map_eq_nil_iff] at hempty
    subst hempty
    exact quiet_literal rfl
  · have hspace : Quiet " " := quiet_literal rfl
    have hsep : Quiet "; " := quiet_literal rfl
    have hparts := ((scans_intercalate hsep h).between hspace hspace).braces
    simpa using hparts

theorem scans_note {note : String} (hclose : NoClose note.toList) (hline : OneLine note) :
    Scans ("/* " ++ note ++ " */").toList ["/* " ++ note ++ " */"] := by
  have hinside : NoClose ([' '] ++ note.toList ++ [' ']) :=
    .append (.append (by decide) hclose (.inl (by decide))) (by decide) (.inr (by decide))
  have hone : '\n' ∉ [' '] ++ note.toList ++ [' '] := by
    rw [OneLine] at hline
    simp [hline]
  have hbody : IsCommentBody [] ([' '] ++ note.toList ++ [' ']) :=
    ⟨List.forall_mem_nil _, hone, hinside⟩
  have hchars : ("/* " ++ note ++ " */").toList =
      '/' :: '*' :: (lineChars [] ++ ([' '] ++ note.toList ++ [' ']) ++ ['*', '/']) := by
    simp [lineChars]
  rw [← String.ofList_toList (s := "/* " ++ note ++ " */"), hchars, String.toList_ofList]
  exact hbody.scans

theorem scans_memberText {name type : String} (optional : Bool) (h : Scans type.toList f) :
    Scans (memberText name optional type).toList f := by
  have hmark : Quiet (if optional then "?: " else ": ") := by
    cases optional <;> exact quiet_literal rfl
  rw [memberText, String.toList_append]
  exact Scans.append ((quiet_propertyKey name).append hmark) h

/-- **The comments of a type expression are those that are meant.** -/
theorem TypeExpr.Tame.scans (h : e.Tame) : Scans e.text.toList e.comments := by
  induction h with
  | unknown => exact quiet_literal rfl
  | primitive p => cases p <;> exact quiet_literal rfl
  | literal h => exact quiet_compact h
  | name h => exact quiet_name h
  | array _ ih =>
    have hend : Quiet "[]" := quiet_literal rfl
    rw [TypeExpr.text, String.toList_append]
    exact ih.between quiet_empty hend
  | record _ ih =>
    have hstart : Quiet "Record<string, " := quiet_literal rfl
    have hend : Quiet ">" := quiet_literal rfl
    rw [TypeExpr.text, String.toList_append, String.toList_append]
    exact ih.between hstart hend
  | @object members _ ih =>
    rw [TypeExpr.text, TypeExpr.comments, memberTexts_eq, memberComments_eq]
    exact scans_braced fun m hm => scans_memberText m.optional (ih m hm)
  | @union members _ ih =>
    rw [TypeExpr.text, TypeExpr.comments, texts_eq, alternativeComments_eq]
    exact scans_intercalate (quiet_literal rfl) ih
  | group _ ih =>
    have hstart : Quiet "(" := quiet_literal rfl
    have hend : Quiet ")" := quiet_literal rfl
    rw [TypeExpr.text, String.toList_append, String.toList_append]
    exact ih.between hstart hend
  | @noted inner note _ hclose hline ih =>
    have hspace : Quiet " " := quiet_literal rfl
    have hall := ih.append (Scans.append hspace (scans_note hclose hline))
    rw [TypeExpr.text, TypeExpr.comments]
    simpa using hall

/-! ## Declarations -/

variable {code more : Code} {name : String} {g' : TypeGraph} {style : Style}

theorem scans_memberLine {member : String} (h : Scans member.toList f) :
    Scans (memberLine member).toList f := by
  have hstart : Quiet "  " := quiet_literal rfl
  have hend : Quiet ";" := quiet_literal rfl
  rw [memberLine, String.toList_append, String.toList_append]
  exact h.between hstart hend

/-- The lines of an interface have the comments of its members. -/
theorem scans_interfaceLines (hname : IsDeclaredName name) (h : Scans (lineChars code) f) :
    Scans (lineChars (interfaceLines name code)) f := by
  have hwords : Quiet "export interface " := quiet_literal rfl
  have hhead : Quiet ("export interface " ++ name) := hwords.append (quiet_name hname)
  rw [interfaceLines]
  split
  · rename_i hempty
    rw [List.isEmpty_iff.1 hempty] at h
    obtain ⟨_, hgoes⟩ := h true
    obtain rfl : [] = f := congrArg Scan.comments (Option.some.inj hgoes)
    have hbraces : Quiet " \x7b\x7d" := quiet_literal rfl
    exact quiet_lines (List.forall_mem_singleton.2 (hhead.append hbraces))
  · have hspace : Quiet " " := quiet_literal rfl
    have hall :=
      (Scans.append (hhead.append hspace) (scans_newline.append h).braces).append scans_newline
    simpa [lineChars] using hall

/-- **The comments of a declaration are those that are meant.** -/
theorem Statement.Tame.scans {s : Statement} (h : s.Tame) :
    Scans (lineChars s.lines) s.comments := by
  cases s with
  | interface name members =>
    rw [Statement.lines, Statement.comments, memberTexts_eq, memberComments_eq, List.map_map]
    exact scans_interfaceLines h.name (scans_map fun m hm =>
      scans_memberLine (scans_memberText m.optional (h.types m hm).scans))
  | typeAlias name type =>
    have hstart : Quiet "export type " := quiet_literal rfl
    have hequals : Quiet " = " := quiet_literal rfl
    have hend : Quiet ";" := quiet_literal rfl
    have hname : IsDeclaredName name := h.name
    have htype : Scans type.text.toList type.comments := TypeExpr.Tame.scans h.types
    have hline := htype.between ((hstart.append (quiet_name hname)).append hequals) hend
    rw [Statement.lines, Statement.comments]
    refine scans_line_of ?_
    rwa [← String.toList_append, ← String.toList_append] at hline

/-- The comments in the declaration of a named node: what is said of the node, and of each field in
front of it. -/
def nodeComments (g : TypeGraph) (style : Style) (id : TypeId) : List String :=
  match statement? g style id with
  | none => []
  | some statement =>
    docText (g.node id).description "" ++
      match g.kind id, statement with
      | .object fields, .interface _ members =>
        (fields.zip members).flatMap fun (field, member) =>
          docText field.description "  " ++ member.type.comments
      | _, statement => statement.comments

theorem scans_declaration {id : TypeId} {lines : List String}
    (hnames : ∀ id name, g'.nameOf id = some name → IsDeclaredName name)
    (hlines : declaration? g' style id = some lines) :
    Scans (lineChars lines) (nodeComments g' style id) := by
  obtain ⟨s, hs, rfl⟩ := Option.map_eq_some_iff.1 hlines
  have htame := tame_statement hnames hs
  rw [nodeComments, hs]
  refine Scans.appendCode (scans_docComment _ (by simp)) ?_
  cases hkind : g'.kind id with
  | object fields =>
    cases s with
    | interface name members =>
      dsimp only
      rw [memberTexts_eq, List.zip_map_right, List.flatMap_map]
      refine scans_interfaceLines htame.name (scans_flatMap fun pair hpair => ?_)
      have hmember := (htame.types pair.2 (List.of_mem_zip hpair).2).scans
      exact Scans.appendCode (scans_docComment _ (by simp))
        (scans_line_of (scans_memberLine (scans_memberText pair.2.optional hmember)))
    | typeAlias => exact htame.scans
  | _ => exact htame.scans

end TypedClient.Declaration

namespace TypedClient.Emit

open TypedClient.Api TypedClient.Declaration TypedClient.Script TypedClient.Types

variable {s : Surface} {api : Definition} {options : Options} {e : Entry} {more : Code}

/-! ## The declarations of a client -/

theorem quiet_blank : Scans (lineChars [""]) [] := scans_newline

theorem Entry.quiet_requestName (e : Entry) : Quiet e.requestName := by
  rw [requestName]
  split <;> exact quiet_literal rfl

theorem Entry.quiet_returnType (h : IsDeclaredName e.types.responses) : Quiet e.returnType := by
  have hstart : Quiet "Promise<" := quiet_literal rfl
  have hend : Quiet ">" := quiet_literal rfl
  exact (hstart.append (quiet_name h)).append hend

theorem quiet_clientInterface (hclient : IsDeclaredName s.clientType)
    (htypes : ∀ e ∈ s.entries, IsDeclaredName e.types.request ∧ IsDeclaredName e.types.responses) :
    Scans (lineChars (clientInterface s)) [] := by
  refine scans_interfaceLines hclient (quiet_lines (List.forall_mem_map.2 fun e he => ?_))
  have hopen : Quiet "(" := quiet_literal rfl
  have hcolon : Quiet ": " := quiet_literal rfl
  have hclose : Quiet "): " := quiet_literal rfl
  have hresult : Quiet (if s.graphql then "Promise<unknown>" else e.returnType) := by
    split
    · exact quiet_literal rfl
    · exact e.quiet_returnType (htypes e he).2
  exact scans_memberLine
    (((((((quiet_propertyKey _).append hopen).append e.quiet_requestName).append hcolon).append
      (quiet_name (htypes e he).1)).append hclose).append hresult)

theorem quiet_optionsInterface (hoptions : IsDeclaredName s.optionsType) :
    Scans (lineChars (optionsInterface s)) [] := by
  have hwords : Quiet "export interface " := quiet_literal rfl
  refine (blocks_block (hwords.append (quiet_name hoptions)) ?_).scans
  repeat refine .line (quiet_literal rfl) ?_
  exact .nil

theorem quiet_declaredFunction {words name parameter result : String} (hwords : Quiet words)
    (hname : Quiet name) (hparameter : Quiet parameter) (hresult : Quiet result) :
    Quiet (declaredFunction words name parameter result) := by
  have hfunction : Quiet "function " := quiet_literal rfl
  have hopen : Quiet "(" := quiet_literal rfl
  have hclose : Quiet "): " := quiet_literal rfl
  have hend : Quiet ";" := quiet_literal rfl
  exact ((((((hwords.append hfunction).append hname).append hopen).append hparameter).append
    hclose).append hresult).append hend

theorem quiet_graphqlRequestType (htypes : ∀ e ∈ s.entries, IsDeclaredName e.types.request) :
    Quiet s.graphqlRequestType := by
  rcases s.graphqlRequestType_cases with htype | ⟨e, he, htype⟩
  · rw [htype]
    exact quiet_literal rfl
  · have hand : Quiet " & " := quiet_literal rfl
    have hrecord : Quiet (record ["headers?: Record<string, string>"]) :=
      scans_of_isQuiet rfl
    rw [htype]
    exact ((quiet_name (htypes e he)).append hand).append hrecord

theorem quiet_ambientFrontend
    (htypes : ∀ e ∈ s.entries, IsDeclaredName e.types.request ∧ IsDeclaredName e.types.responses)
    (hfunctions : ∀ e ∈ s.entries, IsWord e.function) :
    Scans (lineChars (ambientFrontend s)) [] := by
  have hexport : Quiet "export declare " := quiet_literal rfl
  have hunknown : Quiet "Promise<unknown>" := quiet_literal rfl
  refine Scans.appendCode (g := []) (scans_of_isQuiet (by decide +kernel)) ?_
  split
  · have hname : Quiet "graphql" := quiet_literal rfl
    have hrequest : Quiet "request: " := quiet_literal rfl
    exact quiet_lines (List.forall_mem_singleton.2 (quiet_declaredFunction hexport hname
      (hrequest.append (quiet_graphqlRequestType fun e he => (htypes e he).1)) hunknown))
  · refine quiet_lines (List.forall_mem_map.2 fun e he => ?_)
    have hcolon : Quiet ": " := quiet_literal rfl
    exact quiet_declaredFunction hexport (quiet_of_isWord (hfunctions e he))
      ((e.quiet_requestName.append hcolon).append (quiet_name (htypes e he).1))
      (e.quiet_returnType (htypes e he).2)

theorem quiet_ambientPlugin (hclient : IsDeclaredName s.clientType)
    (hoptions : IsDeclaredName s.optionsType) (hfactory : IsWord s.factory)
    (hplugin : IsWord s.plugin) :
    Scans (lineChars (ambientPlugin s)) [] := by
  have hexport : Quiet "export declare " := quiet_literal rfl
  have hdeclare : Quiet "declare " := quiet_literal rfl
  have hparameter : Quiet "options: " := quiet_literal rfl
  have hparameters : Quiet "app: unknown, options: " := quiet_literal rfl
  have hpromise : Quiet "Promise<" := quiet_literal rfl
  have hangle : Quiet ">" := quiet_literal rfl
  have hvoid : Quiet "Promise<void>" := quiet_literal rfl
  have hdefault : Quiet "export default " := quiet_literal rfl
  have hend : Quiet ";" := quiet_literal rfl
  have hroutes : Quiet ("export declare const routes: " ++ routesType ++ ";") :=
    scans_of_isQuiet rfl
  refine quiet_lines (List.forall_mem_cons.2 ⟨hroutes, List.forall_mem_cons.2 ⟨?_,
    List.forall_mem_cons.2 ⟨?_, List.forall_mem_singleton.2 ?_⟩⟩⟩)
  · exact quiet_declaredFunction hexport (quiet_of_isWord hfactory)
      (hparameter.append (quiet_name hoptions))
      ((hpromise.append (quiet_name hclient)).append hangle)
  · exact quiet_declaredFunction hdeclare (quiet_of_isWord hplugin)
      (hparameters.append (quiet_name hoptions)) hvoid
  · exact (hdefault.append (quiet_of_isWord hplugin)).append hend

/-- What is declared besides types has no comments. -/
theorem Nameable.quiet_ambient (h : Nameable api.types) (flavor : Flavor) :
    Scans (lineChars (ambient (Surface.of api options) flavor)) [] := by
  have hentries := h.entries options
  cases flavor with
  | typesOnly => exact scans_nil
  | frontend =>
    exact quiet_ambientFrontend (fun e he => (hentries e he).1) fun e he => (hentries e he).2.1
  | fullNodePlugin =>
    exact quiet_ambientPlugin (h.surface options).clientType.1 (h.surface options).optionsType.1
      (isWord_factory api options) (isWord_plugin api options)

/-- The comments of declarations: those of the named types, and those of the types of operations. -/
def declaredComments (api : Definition) (options : Options) : List String :=
  api.types.names.flatMap (fun (_, id) => nodeComments api.types options.style id) ++
    (Surface.of api options).entries.flatMap fun e => e.types.statements.flatMap Statement.comments

/-- The declarations of the named types. -/
theorem scans_types {names : Dict TypeId} {g : TypeGraph} {style : Style}
    (hnames : ∀ id name, g.nameOf id = some name → IsDeclaredName name) :
    Scans (lineChars ((names.filterMap fun (_, id) => declaration? g style id).flatMap ("" :: ·)))
      (names.flatMap fun (_, id) => nodeComments g style id) := by
  induction names with
  | nil => exact scans_nil
  | cons entry names ih =>
    obtain ⟨name, id⟩ := entry
    rw [List.flatMap_cons, List.filterMap_cons]
    dsimp only
    cases hlines : declaration? g style id with
    | none =>
      have hnone : statement? g style id = none := Option.map_eq_none_iff.1 hlines
      rw [nodeComments, hnone]
      exact ih
    | some lines =>
      dsimp only
      rw [List.flatMap_cons]
      exact Scans.appendCode (Scans.appendCode quiet_blank (scans_declaration hnames hlines)) ih

/-- **Declarations have the comments that are meant**, below any first line. -/
theorem Nameable.exists_declarationsBelow (h : Nameable api.types) (options : Options)
    (flavor : Flavor) {ambient : Code} (hambient : Scans (lineChars ambient) []) : ∃ rest,
      (∀ header, declarationsBelow header (Surface.of api options) flavor ambient =
        tidy (header :: rest)) ∧ Scans (lineChars rest) (declaredComments api options) := by
  refine ⟨_, fun header => rfl, ?_⟩
  have htypes : Scans (lineChars ((Surface.of api options).types.flatMap ("" :: ·)))
    (api.types.names.flatMap fun (_, id) => nodeComments api.types options.style id) :=
      scans_types h.nodes
  have hentries := h.entries options
  have hclient :=
    quiet_clientInterface (h.surface options).clientType.1 fun e he => (hentries e he).1
  have hoptions := quiet_optionsInterface (h.surface options).optionsType.1
  rw [declaredComments]
  generalize Surface.of api options = s at htypes hentries hclient hoptions ⊢
  have hoperations : Scans (lineChars ((s.entries.flatMap fun e =>
      e.types.statements.map Statement.lines).flatMap ("" :: ·)))
      (s.entries.flatMap fun e => e.types.statements.flatMap Statement.comments) := by
    rw [List.flatMap_assoc]
    refine scans_flatMap fun e he => ?_
    rw [List.flatMap_map]
    exact scans_flatMap fun t ht => Scans.appendCode quiet_blank ((hentries e he).2.2 t ht).scans
  have hplugin : Scans (lineChars
      (if flavor = .fullNodePlugin then ["" :: optionsInterface s] else []).flatten) [] := by
    split
    · rw [List.flatten_singleton]
      exact Scans.appendCode quiet_blank hoptions
    · exact scans_nil
  have hall :=
    ((((htypes.appendCode hoperations).appendCode quiet_blank).appendCode hclient).appendCode
    hplugin).appendCode quiet_blank |>.appendCode hambient
  rw [← List.flatMap_append] at hall
  simp only [List.append_nil] at hall
  exact hall

end TypedClient.Emit
