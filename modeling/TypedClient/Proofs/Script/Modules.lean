import TypedClient.Emit.Artifact
import TypedClient.Proofs.Emit.RoundTrip
import TypedClient.Proofs.Script.Declarations

/-!
# The comments of emitted modules

Whatever a schema puts in the code of a module besides comments is a literal, an identifier or the
text of a template, and none of these is left before its end.

* `quiet_pathExpression` says so of the path of an operation, in which the text between placeholders
  stands in a template (`goes_templateText`);
* `Surface.Written` is what the code is made of;
* `scans_operationFunction` says that the function of an operation has one comment at most, its
  summary; all other pieces of a module are `Blocks`, code without comments.
-/

set_option autoImplicit false

namespace TypedClient.Emit

open TypedClient.Api TypedClient.Declaration TypedClient.Script TypedClient.Text TypedClient.Types

variable {s : Surface} {api : Definition} {options : Options} {e : Entry} {code : Code}
  {d : Dialect}

/-! ## Pieces of code -/

theorem quiet_typed (d : Dialect) {subject type : String} (hsubject : Quiet subject)
    (htype : Quiet type) : Quiet (d.typed subject type) := by
  have hcolon : Quiet ": " := quiet_literal rfl
  rw [Dialect.typed]
  split
  · exact (hsubject.append hcolon).append htype
  · exact hsubject

/-- Parameters with their types. -/
theorem quiet_parameters (d : Dialect) (parameters : List (String × String))
    (h : (parameters.all fun p => isQuiet p.1.toList && isQuiet p.2.toList) = true) :
    ∀ text ∈ parameters.map (fun p => d.typed p.1 p.2), Quiet text := by
  refine List.forall_mem_map.2 fun p hp => ?_
  obtain ⟨hname, htype⟩ := Bool.and_eq_true_iff.1 (List.all_eq_true.1 h p hp)
  exact quiet_typed d (scans_of_isQuiet hname) (scans_of_isQuiet htype)

theorem quiet_exported (d : Dialect) : Quiet d.exported := by
  rw [Dialect.exported]
  split
  · exact quiet_literal rfl
  · exact quiet_empty

theorem quiet_inBraces {text : String} (h : Quiet text) : Quiet (inBraces text) := by
  have hbraces := Scans.braces h
  rw [Quiet, inBraces, String.toList_append, String.toList_append, List.append_assoc]
  exact hbraces

theorem quiet_record {parts : List String} (h : ∀ part ∈ parts, Quiet part) :
    Quiet (record parts) := by
  have hspace : Quiet " " := quiet_literal rfl
  exact quiet_inBraces ((hspace.append (quiet_intercalate (quiet_literal rfl) h)).append
    hspace)

theorem quiet_emptyRecord : Quiet emptyRecord := quiet_inBraces quiet_empty

theorem blocks_function (d : Dialect) {words name result : String} {parameters : List String}
    (hwords : Quiet words) (hname : Quiet name) (hparameters : ∀ p ∈ parameters, Quiet p)
    (hresult : Quiet result) (hcode : Blocks code) :
    Blocks (d.function words name parameters result code) := by
  have hfunction : Quiet "function " := quiet_literal rfl
  have hspace : Quiet " " := quiet_literal rfl
  have hopen : Quiet "(" := quiet_literal rfl
  have hcomma : Quiet ", " := quiet_literal rfl
  have hclose : Quiet ")" := quiet_literal rfl
  exact blocks_block ((((hwords.append hfunction).append hname).append hspace).append
    (quiet_typed d ((hopen.append (quiet_intercalate hcomma hparameters)).append hclose) hresult))
    hcode

/-! ## What every browser module has -/

theorem blocks_blank : Blocks [""] := .line quiet_empty .nil

/-- A variable with its first value. -/
theorem quiet_variable (d : Dialect) {words name type value : String} (hwords : Quiet words)
    (hname : Quiet name) (htype : Quiet type) (hvalue : Quiet value) :
    Quiet (words ++ d.typed name type ++ " = " ++ value) := by
  have hequals : Quiet " = " := quiet_literal rfl
  exact ((hwords.append (quiet_typed d hname htype)).append hequals).append hvalue

theorem blocks_setter (d : Dialect) {name parameter type : String} (hname : Quiet name)
    (hparameter : Quiet parameter) (htype : Quiet type) (hcode : Blocks code) :
    Blocks (d.function d.exported name [d.typed parameter type] "void" code) :=
  blocks_function d (quiet_exported d) hname
    (List.forall_mem_singleton.2 (quiet_typed d hparameter htype)) (quiet_literal rfl) hcode

theorem blocks_settings (d : Dialect) (s : Surface) : Blocks (settings d s) := by
  have hlet : Quiet "let " := quiet_literal rfl
  have hstring : Quiet "string" := quiet_literal rfl
  have hheaders : Quiet "Record<string, string>" := quiet_literal rfl
  have hinit : Quiet "RequestInit" := quiet_literal rfl
  have hreset : Quiet ("defaultHeaders = " ++ emptyRecord) := scans_of_isQuiet rfl
  refine ((((Blocks.append ?_ ?_).append blocks_blank).append ?_).append blocks_blank).append ?_
  · exact .line (quiet_variable d hlet (quiet_literal rfl) hstring (quiet_quote _))
      (.line (quiet_variable d hlet (quiet_literal rfl) hheaders quiet_emptyRecord)
        (.line (quiet_variable d hlet (quiet_literal rfl) hinit quiet_emptyRecord)
          blocks_blank))
  · exact blocks_setter d (quiet_literal rfl) (quiet_literal rfl) hstring
      (.line (quiet_literal rfl) .nil)
  · exact blocks_setter d (quiet_literal rfl) (quiet_literal rfl) hheaders
      (.line hreset (blocks_block (quiet_literal rfl)
        (.line (quiet_literal rfl) .nil)))
  · exact blocks_setter d (quiet_literal rfl) (quiet_literal rfl) hinit
      (.line (quiet_literal rfl) .nil)

theorem blocks_appendQueryFunction (d : Dialect) : Blocks (appendQueryFunction d) := by
  have hkey : Quiet (String.singleton '\x60' ++ hole "key" ++ "[" ++ hole "sub" ++ "]" ++
      String.singleton '\x60') := scans_of_isQuiet rfl
  have hentries : Quiet "for (const [sub, item] of Object.entries(value)) appendQuery(search, " :=
    quiet_literal rfl
  have hitem : Quiet ", item)" := quiet_literal rfl
  have hparameters := quiet_parameters d
    [("search", "URLSearchParams"), ("key", "string"), ("value", "unknown")] rfl
  have hbranches : ∀ branch ∈ [("else if (typeof value === 'object')",
        ["for (const [sub, item] of Object.entries(value)) appendQuery(search, " ++
          (String.singleton '\x60' ++ hole "key" ++ "[" ++ hole "sub" ++ "]" ++
            String.singleton '\x60') ++ ", item)"]),
      ("else", ["search.append(key, String(value))"])], Quiet branch.1 ∧ Blocks branch.2 :=
    List.forall_mem_cons.2 ⟨⟨quiet_literal rfl,
        .line ((hentries.append hkey).append hitem) .nil⟩,
      List.forall_mem_singleton.2 ⟨quiet_literal rfl,
        .line (quiet_literal rfl) .nil⟩⟩
  exact blocks_function d quiet_empty (quiet_literal rfl) hparameters
    (quiet_literal rfl) (.line (quiet_literal rfl)
      (blocks_branches (quiet_literal rfl)
        (.line (quiet_literal rfl) .nil) hbranches))

theorem blocks_omitFunction (d : Dialect) : Blocks (omitFunction d) := by
  have hconst : Quiet "const " := quiet_literal rfl
  have hparameters :=
    quiet_parameters d [("source", "object"), ("keys", "string[]")] rfl
  have hname : Quiet "out" := quiet_literal rfl
  have htype : Quiet "Record<string, unknown>" := quiet_literal rfl
  have hout := quiet_variable d hconst hname htype quiet_emptyRecord
  have hloop : Blocks (block "for (const [key, value] of Object.entries(source))"
      ["if (!keys.includes(key)) out[key] = value"]) :=
    blocks_block (quiet_literal rfl) (.line (quiet_literal rfl) .nil)
  exact blocks_function d quiet_empty (quiet_literal rfl) hparameters
    (quiet_literal rfl) ((Blocks.append (.line hout .nil) hloop).append
      (.line (quiet_literal rfl) .nil))

theorem blocks_callAnswer (fullResponse : Bool) : Blocks (callAnswer fullResponse) := by
  have hfailure : Quiet ("throw new Error(" ++ String.singleton '\x60' ++ hole "method" ++ " " ++
      hole "path" ++ " failed with status " ++ hole "response.status" ++ String.singleton '\x60' ++
      ")") := scans_of_isQuiet rfl
  cases fullResponse with
  | true =>
    exact blocks_block (quiet_literal rfl) (.line (quiet_literal rfl)
      (.line (quiet_literal rfl) (.line (quiet_literal rfl) .nil)))
  | false =>
    exact (blocks_block (quiet_literal rfl) (.line hfailure .nil)).append
      (.line (quiet_literal rfl) .nil)

theorem blocks_callFunction (d : Dialect) (fullResponse : Bool) :
    Blocks (callFunction d fullResponse) := by
  have hconst : Quiet "const " := quiet_literal rfl
  have hparameters := quiet_parameters d
    [("method", "string"), ("path", "string"), ("query", "Record<string, unknown> | undefined"),
      ("headers", "Record<string, unknown> | undefined"), ("body", "unknown"),
      ("multipart", "boolean")] rfl
  have hquery : Quiet ("for (const [key, value] of Object.entries(query ?? " ++ emptyRecord ++
      ")) appendQuery(search, key, value)") := scans_of_isQuiet (by decide +kernel)
  have hheaders : Quiet (record ["...defaultHeaders"]) := scans_of_isQuiet (by decide +kernel)
  have hentries : Quiet ("for (const [key, value] of Object.entries(headers ?? " ++ emptyRecord ++
      "))") := scans_of_isQuiet (by decide +kernel)
  have hentry : Quiet ("if (value !== undefined && value !== null) " ++
      "requestHeaders[key.toLowerCase()] = String(value)") := scans_of_isQuiet (by decide +kernel)
  have hinit : Quiet (record ["...defaultFetchParams", "method", "headers: requestHeaders"]) :=
    scans_of_isQuiet (by decide +kernel)
  have hbody : Quiet "init.body = body" := quiet_literal rfl
  have hform : Quiet (if d.typescript then " as FormData" else "") := by
    split
    · exact quiet_literal rfl
    · exact quiet_empty
  have hfetch : Quiet ("const response = await fetch(" ++
      (String.singleton '\x60' ++ hole "baseUrl" ++ hole "path" ++
        hole ("qs ? " ++ String.singleton '\x60' ++ "?" ++ hole "qs" ++ String.singleton '\x60' ++
          " : ''") ++ String.singleton '\x60') ++ ", init)") :=
    scans_of_isQuiet (by decide +kernel)
  have hmultipart : Blocks (block "if (body !== undefined)" (branches "if (multipart)"
      ["init.body = body" ++ (if d.typescript then " as FormData" else "")]
      [("else", ["requestHeaders['content-type'] = 'application/json'",
        "init.body = JSON.stringify(body)"])])) :=
    blocks_block (quiet_literal rfl) (blocks_branches (quiet_literal rfl)
      (.line (hbody.append hform) .nil) (List.forall_mem_singleton.2 ⟨quiet_literal rfl,
        .line (quiet_literal rfl) (.line (quiet_literal rfl) .nil)⟩))
  refine blocks_function d (quiet_literal rfl) (quiet_literal rfl)
    hparameters (quiet_literal rfl) ?_
  refine ((((Blocks.append ?_ ?_).append ?_).append hmultipart).append ?_).append
    (blocks_callAnswer fullResponse)
  · exact .line (quiet_literal rfl) (.line hquery (.line
      (quiet_variable d hconst (quiet_literal rfl) (quiet_literal rfl)
        hheaders) .nil))
  · exact blocks_block hentries (.line hentry .nil)
  · exact .line (quiet_variable d hconst (quiet_literal rfl)
      (quiet_literal rfl) hinit) .nil
  · exact .line (quiet_literal rfl) (.line hfetch (.line
      (quiet_literal rfl) (.line (quiet_literal rfl) (.line
        (quiet_literal rfl) .nil))))

/-! ## Calls of operations -/

/-- Whether a backslash goes before a character of a template, by what stands behind it. -/
def isMarked (c : Char) (rest : List Char) : Prop :=
  c = '\\' ∨ c = '\x60' ∨ c = '$' ∧ rest.head? = some '\x7b'

instance (c : Char) (rest : List Char) : Decidable (isMarked c rest) :=
  inferInstanceAs (Decidable (_ ∨ _))

/-- Text in a template has a backslash before each character that means something there. -/
theorem templateText_cons (c : Char) (rest : List Char) : templateText (c :: rest) =
    (if isMarked c rest then ['\\', c] else [c]) ++ templateText rest := by
  have hhead : (rest.flatMap fun c => if c = '\\' ∨ c = '\x60' then ['\\', c] else [c]).head? =
      some '\x7b' ↔ rest.head? = some '\x7b' := by
    cases rest with
    | nil => exact Iff.rfl
    | cons d rest =>
      rw [List.flatMap_cons]
      split
      · rename_i hd
        rcases hd with rfl | rfl <;> simp
      · rfl
  rw [templateText, templateText, List.flatMap_cons]
  by_cases hmark : c = '\\' ∨ c = '\x60'
  · have hdollar : ¬c = '$' := by rcases hmark with rfl | rfl <;> decide
    rw [if_pos hmark, if_pos (by rw [isMarked, ← or_assoc]; exact .inl hmark)]
    simp [replacePair_cons, hdollar]
  · rw [if_neg hmark]
    obtain ⟨hbackslash, htick⟩ := not_or.1 hmark
    simp only [List.singleton_append, replacePair_cons, hhead, isMarked, hbackslash,
      htick, false_or]
    split
    · rename_i hdollar
      obtain ⟨rest, rfl⟩ := List.head?_eq_some_iff.1 hdollar.2
      simp [replacePair_cons, hdollar.1]
    · rfl

/-- The places in the text of a template. -/
def InText (p : Place) : Prop := p = .template ∨ p = .dollar

theorem goes_hole {expression : String} (h : Quiet expression) {p : Place} (hp : InText p) :
    Goes p (hole expression).toList [] .template := by
  have hhole := Scans.hole h hp
  rw [hole, inBraces, String.toList_append, String.toList_append, String.toList_append,
    List.append_assoc]
  exact hhole

/-- Text stays in the template that it is written in.  A dollar sign before it opens nothing either,
if no brace follows. -/
theorem goes_templateText (text : List Char) {p : Place}
    (hp : p = .template ∨ p = .dollar ∧ text.head? ≠ some '\x7b') :
    ∃ q, InText q ∧ Goes p (templateText text) [] q := by
  induction text generalizing p with
  | nil => exact ⟨p, hp.imp_right And.left, goes_nil p⟩
  | cons c rest ih =>
    rw [templateText_cons]
    split
    · rename_i hmark
      obtain ⟨q, hq, hgoes⟩ := ih (p := .template) (.inl rfl)
      have hescape : next p '\\' =
          some (.templateEscape, .none) := by rcases hp with rfl | ⟨rfl, -⟩ <;> rfl
      exact ⟨q, hq, .cons hescape (.cons rfl hgoes)⟩
    · rename_i hmark
      rw [isMarked, not_or, not_or] at hmark
      obtain ⟨hbackslash, htick, hbrace⟩ := hmark
      have hhere : next p c = some (fromTemplate c, .none) := by
        rcases hp with rfl | ⟨rfl, hc⟩
        · rfl
        · exact if_neg fun h => hc (congrArg some h)
      rw [fromTemplate, if_neg htick, if_neg hbackslash] at hhere
      by_cases hdollar : c = '$'
      · obtain ⟨q, hq, hgoes⟩ := ih (p := .dollar) (.inr ⟨rfl, fun h => hbrace ⟨hdollar, h⟩⟩)
        rw [if_pos hdollar] at hhere
        exact ⟨q, hq, .cons hhere hgoes⟩
      · obtain ⟨q, hq, hgoes⟩ := ih (p := .template) (.inl rfl)
        rw [if_neg hdollar] at hhere
        exact ⟨q, hq, .cons hhere hgoes⟩

theorem quiet_accessor (fullRequest : Bool) {group : String} (hgroup : Quiet group)
    (name : String) :
    Quiet (accessor fullRequest group name) := by
  have hrequest : Quiet "request." := quiet_literal rfl
  have hoptional : Quiet "?.[" := quiet_literal rfl
  have hopen : Quiet "request[" := quiet_literal rfl
  have hclose : Quiet "]" := quiet_literal rfl
  rw [accessor]
  split
  · exact (((hrequest.append hgroup).append hoptional).append (quiet_quote name)).append hclose
  · exact (hopen.append (quiet_quote name)).append hclose

/-- What stands in a hole of a path. -/
theorem quiet_argument (fullRequest : Bool) (name : String) :
    Quiet ("encodeURIComponent(String(" ++ accessor fullRequest "path" name ++ "))") := by
  have hencode : Quiet "encodeURIComponent(String(" := quiet_literal rfl
  have hgroup : Quiet "path" := quiet_literal rfl
  have hclose : Quiet "))" := quiet_literal rfl
  exact (hencode.append (quiet_accessor fullRequest hgroup name)).append hclose

/-- The pieces of a path are the text of a template. -/
theorem goes_piecesFrom (fullRequest : Bool) (text : List Char) (name : Option (List Char))
    (rest : List Char) : ∃ q, InText q ∧ Goes .template
      ((piecesFrom text name rest).flatMap fun piece => (pathPiece fullRequest piece).toList)
      [] q := by
  have hliteral (text : List Char) : ∃ q, InText q ∧
      Goes .template
        ([Piece.literal text].flatMap fun piece => (pathPiece fullRequest piece).toList) [] q := by
    rw [List.flatMap_singleton, pathPiece, String.toList_ofList]
    exact goes_templateText text (.inl rfl)
  fun_induction piecesFrom text name rest with
  | case1 | case2 => exact hliteral _
  | case3 _ _ ih | case4 _ _ _ _ ih | case6 _ _ _ _ _ ih => exact ih
  | case5 text name rest ih =>
    obtain ⟨p, hp, hbefore⟩ := hliteral text.reverse
    obtain ⟨q, hq, hafter⟩ := ih
    have hargument := goes_hole (quiet_argument fullRequest (String.ofList name.reverse)) hp
    rw [List.flatMap_singleton] at hbefore
    rw [List.flatMap_cons, List.flatMap_cons]
    exact ⟨q, hq, hbefore.append (hargument.append hafter)⟩

theorem quiet_pathExpression (fullRequest : Bool) (path : String) :
    Quiet (pathExpression fullRequest path) := by
  obtain ⟨q, hq, hgoes⟩ := goes_piecesFrom fullRequest [] none path.toList
  have hall := scans_template hgoes hq
  rw [Quiet, pathExpression, String.toList_append, String.toList_append, String.toList_join,
    List.flatMap_map]
  exact hall

theorem quiet_groupExpression (fullRequest : Bool) {group : String} (hgroup : Quiet group)
    (parameters : List Parameter) : Quiet (groupExpression fullRequest group parameters) := by
  have hrequest : Quiet "request." := quiet_literal rfl
  have hundefined : Quiet "undefined" := quiet_literal rfl
  have hcolon : Quiet ": " := quiet_literal rfl
  rw [groupExpression]
  split
  · exact hrequest.append hgroup
  · split
    · exact hundefined
    · exact quiet_record (List.forall_mem_map.2 fun p _ =>
        ((quiet_quote p.name).append hcolon).append (quiet_accessor false hgroup p.name))

theorem quiet_bodyExpression (g : TypeGraph) (fullRequest : Bool) (op : Operation) :
    Quiet (bodyExpression g fullRequest op) := by
  have homit : Quiet "omit(request, [" := quiet_literal rfl
  have hcomma : Quiet ", " := quiet_literal rfl
  have hclose : Quiet "])" := quiet_literal rfl
  have hundefined : Quiet "undefined" := quiet_literal rfl
  have hrequest : Quiet "request.body" := quiet_literal rfl
  have hgroup : Quiet "body" := quiet_literal rfl
  rw [bodyExpression]
  split
  · exact hundefined
  · split
    · exact hrequest
    · split
      · exact quiet_accessor false hgroup "body"
      · have hnames := quiet_intercalate hcomma (List.forall_mem_map.2 fun (p : Parameter)
          (_ : p ∈ plainParameters op) => quiet_quote p.name)
        exact (homit.append hnames).append hclose

/-- What the code for an operation is made of has no comments. -/
structure Entry.Written (e : Entry) : Prop where
  /-- The type of requests. -/
  request : IsDeclaredName e.types.request
  /-- The type of responses. -/
  responses : IsDeclaredName e.types.responses
  /-- The function. -/
  function : IsWord e.function
  /-- The call is that of the operation. -/
  call : ∃ g fullRequest, e.call = callOf g fullRequest e.operation

/-- The arguments of a call. -/
theorem Entry.quiet_arguments (h : e.Written) :
    ∀ text ∈ [Json.quote e.operation.method.text, e.call.path,
    e.call.query, e.call.headers, e.call.body, if e.call.multipart then "true" else "false"],
    Quiet text := by
  obtain ⟨g, fullRequest, hcall⟩ := h.call
  have hflag : Quiet (if e.call.multipart then "true" else "false") := by
    split <;> exact quiet_literal rfl
  rw [hcall] at hflag ⊢
  have hquery : Quiet "query" := quiet_literal rfl
  have hheaders : Quiet "headers" := quiet_literal rfl
  simp only [List.forall_mem_cons]
  exact ⟨quiet_quote _, quiet_pathExpression fullRequest _,
    quiet_groupExpression fullRequest hquery _, quiet_groupExpression fullRequest hheaders _,
    quiet_bodyExpression g fullRequest _, hflag,
    List.forall_mem_nil _⟩

/-- The function of an operation has one comment at most: its summary. -/
theorem scans_operationFunction (d : Dialect) (h : e.Written) :
    Scans (lineChars (operationFunction d e)) (docText e.operation.summary "") := by
  have hasync : Quiet "async " := quiet_literal rfl
  have hcall : Quiet "return call(" := quiet_literal rfl
  have hcomma : Quiet ", " := quiet_literal rfl
  have hclose : Quiet ")" := quiet_literal rfl
  have hdefault : Quiet (if e.types.requestOptional then " = " ++ emptyRecord else "") := by
    split
    · exact scans_of_isQuiet rfl
    · exact quiet_empty
  have hrequest : Quiet "request" := quiet_literal rfl
  have hparameter := (quiet_typed d hrequest (quiet_name h.request)).append hdefault
  have hfunction := blocks_function d ((quiet_exported d).append hasync)
    (quiet_of_isWord h.function) (List.forall_mem_singleton.2 hparameter)
    (e.quiet_returnType h.responses)
    (.line ((hcall.append (quiet_intercalate hcomma (Entry.quiet_arguments h))).append hclose) .nil)
  have hsummary :
      Scans (lineChars (docComment e.operation.summary "")) (docText e.operation.summary "") :=
    scans_docComment _ (by simp)
  have hall := Scans.appendCode hsummary hfunction.scans
  rw [List.append_nil] at hall
  exact hall

theorem blocks_graphqlFunction (d : Dialect) (fullResponse : Bool)
    (htypes : ∀ e ∈ s.entries, e.Written) : Blocks (graphqlFunction d fullResponse s) := by
  have hasync : Quiet "async " := quiet_literal rfl
  have hparts : Quiet ("const " ++ record ["headers", "...body"] ++ " = request") :=
    scans_of_isQuiet rfl
  have hpayload : Quiet ("const payload = await call('POST', " ++ Json.quote graphqlPath ++
      ", undefined, headers, body, false)") := scans_of_isQuiet rfl
  have hresult : Quiet "const result = " := quiet_literal rfl
  have hthrow : Quiet "throw new Error(result.errors.map((" := quiet_literal rfl
  have hjoin : Quiet ") => error.message).join('; '))" := quiet_literal rfl
  have hbody : Quiet (if fullResponse then "payload.body" else "payload") := by
    split <;> exact quiet_literal rfl
  have herror : Quiet "error" := quiet_literal rfl
  have hany : Quiet "any" := quiet_literal rfl
  refine blocks_function d ((quiet_exported d).append hasync) (quiet_literal rfl)
    (List.forall_mem_singleton.2 (quiet_typed d (quiet_literal rfl)
      (quiet_graphqlRequestType fun e he => (htypes e he).request)))
    (quiet_literal rfl) ?_
  refine (Blocks.append (.line hparts (.line hpayload (.line (hresult.append hbody) .nil)))
    ?_).append (.line (quiet_literal rfl) .nil)
  exact blocks_block (quiet_literal rfl)
    (.line ((hthrow.append (quiet_typed d herror hany)).append hjoin) .nil)

/-! ## Plugins -/

theorem blocks_routesTable (d : Dialect) (s : Surface) : Blocks (routesTable d s) := by
  have hconst : Quiet "const " := quiet_literal rfl
  have hequals : Quiet " =" := quiet_literal rfl
  have hcolon : Quiet ": " := quiet_literal rfl
  have hcomma : Quiet "," := quiet_literal rfl
  have hpath : Quiet "path: " := quiet_literal rfl
  have hmethod : Quiet "method: " := quiet_literal rfl
  have hroutes : Quiet "routes" := quiet_literal rfl
  have htype : Quiet routesType := scans_of_isQuiet rfl
  refine blocks_block
    ((((quiet_exported d).append hconst).append (quiet_typed d hroutes htype)).append
      hequals)
    (blocks_lines (List.forall_mem_map.2 fun e _ => ?_))
  exact (((quiet_propertyKey e.operation.id).append hcolon).append (quiet_record
    (List.forall_mem_cons.2 ⟨hpath.append (quiet_quote _),
      List.forall_mem_singleton.2 (hmethod.append (quiet_quote _))⟩))).append hcomma

theorem quiet_flagText (value : Bool) : Quiet (flagText value) := by
  cases value <;> exact quiet_literal rfl

theorem quiet_builder (s : Surface) : Quiet (builder s) := by
  rw [builder]
  split <;> exact quiet_literal rfl

/-- What the code of a plugin is made of has no comments. -/
structure Surface.Written (s : Surface) : Prop where
  /-- The type of clients. -/
  clientType : IsDeclaredName s.clientType
  /-- The type of options. -/
  optionsType : IsDeclaredName s.optionsType
  /-- The function that makes a client. -/
  factory : IsWord s.factory
  /-- The plugin function. -/
  plugin : IsWord s.plugin
  /-- The operations. -/
  entries : ∀ e ∈ s.entries, e.Written

theorem blocks_factoryFunction (d : Dialect) (options : Options) (h : s.Written) :
    Blocks (factoryFunction d options s) := by
  have hasync : Quiet "async " := quiet_literal rfl
  have hpromise : Quiet "Promise<" := quiet_literal rfl
  have hangle : Quiet ">" := quiet_literal rfl
  have hname : Quiet "clientName: " := quiet_literal rfl
  have hrequest : Quiet "fullRequest: " := quiet_literal rfl
  have hresponse : Quiet "fullResponse: " := quiet_literal rfl
  have hcomma : Quiet "," := quiet_literal rfl
  have hreturn : Quiet "return " := quiet_literal rfl
  have hopen : Quiet "(" := quiet_literal rfl
  have hfullRequest : Blocks
      (if s.graphql then [] else ["fullRequest: " ++ flagText options.fullRequest ++ ","]) := by
    split
    · exact .nil
    · exact .line ((hrequest.append (quiet_flagText _)).append hcomma) .nil
  have hend : Quiet (if s.graphql then ")" else ", routes)") := by
    split <;> exact quiet_literal rfl
  refine blocks_function d ((quiet_exported d).append hasync) (quiet_of_isWord h.factory)
    (List.forall_mem_singleton.2 (quiet_typed d (quiet_literal rfl)
      (quiet_name h.optionsType))) ((hpromise.append (quiet_name h.clientType)).append hangle) ?_
  refine blocks_enclosed ((hreturn.append (quiet_builder s)).append hopen) ?_ hend
  exact (Blocks.append (.line ((hname.append (quiet_quote _)).append hcomma) .nil)
    hfullRequest).append (.line ((hresponse.append (quiet_flagText _)).append hcomma)
      (.line (quiet_literal rfl) .nil))

theorem blocks_pluginFunction (d : Dialect) (h : s.Written) : Blocks (pluginFunction d s) := by
  have hasync : Quiet "async " := quiet_literal rfl
  have hclient : Quiet "const client = await " := quiet_literal rfl
  have hoptions : Quiet "(options)" := quiet_literal rfl
  have hdecorate : Quiet "app.decorateRequest(" := quiet_literal rfl
  have hnull : Quiet ", null)" := quiet_literal rfl
  have hhook : Quiet "app.addHook('onRequest', async (" := quiet_literal rfl
  have harrow : Quiet ") => " := quiet_literal rfl
  have hrequest : Quiet "request[" := quiet_literal rfl
  have hassign : Quiet "] = client" := quiet_literal rfl
  have hany : Quiet "any" := quiet_literal rfl
  have hparameters : ∀ text ∈ [d.typed "app" "any", d.typed "options" s.optionsType], Quiet text :=
    List.forall_mem_cons.2 ⟨quiet_typed d (quiet_literal rfl) hany,
      List.forall_mem_singleton.2 (quiet_typed d (quiet_literal rfl)
        (quiet_name h.optionsType))⟩
  refine blocks_function d hasync (quiet_of_isWord h.plugin) hparameters
    (quiet_literal rfl) (Blocks.append ?_ ?_)
  · exact .line ((hclient.append (quiet_of_isWord h.factory)).append hoptions)
      (.line ((hdecorate.append (quiet_quote _)).append hnull) .nil)
  · exact blocks_enclosed
      ((hhook.append (quiet_typed d (quiet_literal rfl) hany)).append harrow)
      (.line ((hrequest.append (quiet_quote _)).append hassign) .nil) (quiet_literal rfl)

end TypedClient.Emit
