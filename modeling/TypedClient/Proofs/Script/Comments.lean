import TypedClient.Proofs.Script.Modules

/-!
# What a schema says stays in its comments

The first line of an artifact is a comment that gives title and version of the definition.  Below
it, the comments are those of types, of fields, of summaries and of widened unions.

* `exists_frontendModule` and `exists_pluginModule` are the two sorts of modules;
* `artifactComments` are the comments that are meant below the first line, and `exists_body` says
  that a scanner finds these and no others;
* `comments_emitted` says so of whole artifacts.  The first line is a comment to its end just if
  there are no line or paragraph separators in title and version: line feeds and carriage returns
  are made into blanks, but these two end a line as well (`not_comments_annotated`).
-/

set_option autoImplicit false

namespace TypedClient.Emit

open TypedClient.Api TypedClient.Declaration TypedClient.Script TypedClient.Text TypedClient.Types

variable {s : Surface} {api : Definition} {options : Options} {f : List String}

/-! ## Modules -/

/-- What the code for a definition is made of. -/
theorem Nameable.written (h : Nameable api.types) (options : Options) :
    (Surface.of api options).Written where
  clientType := (h.surface options).clientType.1
  optionsType := (h.surface options).optionsType.1
  factory := isWord_factory api options
  plugin := isWord_plugin api options
  entries := fun e he => by
    obtain ⟨⟨hrequest, hresponses⟩, hfunction, -⟩ := h.entries options e he
    refine ⟨hrequest, hresponses, hfunction, api.types, options.fullRequest, ?_⟩
    obtain ⟨_, -, rfl⟩ := List.mem_map.1 he
    rfl

/-- The entries are those of the operations. -/
theorem Nameable.map_operation (h : Nameable api.types) (options : Options) :
    (Surface.of api options).entries.map Entry.operation = api.operations := by
  have hentries := List.forall₂_map_right_iff.2
    ((h.surface options).entries.imp fun op e (he : _ ∧ _) => he.1.symm)
  rw [List.forall₂_eq_eq_eq] at hentries
  exact hentries.symm

/-- The comments of the functions of a browser module. -/
def Surface.summaries (s : Surface) : List String :=
  (if s.graphql then [] else s.entries).flatMap fun e => docText e.operation.summary ""

theorem quiet_strict (d : Dialect) :
    Scans (lineChars (if d.modules then [] else ["'use strict'"])) [] := by
  split
  · exact scans_nil
  · exact quiet_lines (List.forall_mem_singleton.2 (quiet_literal rfl))

theorem quiet_moduleExports {parts : List String} (h : ∀ part ∈ parts, Quiet part) :
    Quiet ("module.exports = " ++ record parts) := by
  have hwords : Quiet "module.exports = " := quiet_literal rfl
  exact hwords.append (quiet_record h)

/-- The names that a browser module exports. -/
theorem quiet_exports (h : s.Written) :
    ∀ name ∈ ["setBaseUrl", "setDefaultHeaders", "setDefaultFetchParams"] ++
        (if s.graphql then [] else s.entries).map Entry.function ++
        (if s.graphql then ["graphql"] else []),
      Quiet name := by
  refine List.forall_mem_append.2
    ⟨List.forall_mem_append.2 ⟨?_, List.forall_mem_map.2 fun e he => ?_⟩, ?_⟩
  · simp only [List.forall_mem_cons]
    exact ⟨quiet_literal rfl, quiet_literal rfl, quiet_literal rfl, List.forall_mem_nil _⟩
  · split at he
    · cases he
    · exact quiet_of_isWord (h.entries e he).function
  · split
    · exact List.forall_mem_singleton.2 (quiet_literal rfl)
    · exact List.forall_mem_nil _

/-- **A browser module has the comments of its types and of its functions.** -/
theorem exists_frontendModule (d : Dialect) (options : Options) (h : s.Written)
    (htypes : Scans (lineChars (if d.typescript then declarations s options.flavor else [])) f) :
    ∃ rest, frontendModule d options s = tidy (s.header :: rest) ∧
      Scans (lineChars rest) (f ++ s.summaries) := by
  have hblank : Scans (lineChars [""]) [] := quiet_blank
  have hfunctions : Scans (lineChars
      ((if s.graphql then [] else s.entries).flatMap fun e => "" :: operationFunction d e))
      s.summaries :=
    scans_flatMap fun e he => by
      have hentry : e ∈ s.entries := by
        split at he
        · cases he
        · exact he
      exact hblank.appendCode (scans_operationFunction d (h.entries e hentry))
  have hgraphql : Scans
      (lineChars (if s.graphql then graphqlFunction d options.fullResponse s else [])) [] := by
    split
    · exact (blocks_graphqlFunction d options.fullResponse h.entries).scans
    · exact scans_nil
  have hexports : Scans (lineChars (if d.modules then [] else ["module.exports = " ++ record
      (["setBaseUrl", "setDefaultHeaders", "setDefaultFetchParams"] ++
        (if s.graphql then [] else s.entries).map Entry.function ++
        (if s.graphql then ["graphql"] else []))])) [] := by
    split
    · exact scans_nil
    · exact quiet_lines (List.forall_mem_singleton.2 (quiet_moduleExports (quiet_exports h)))
  have hall := (quiet_strict d).appendCode htypes |>.appendCode hblank
    |>.appendCode (blocks_settings d s).scans |>.appendCode hblank
    |>.appendCode (blocks_appendQueryFunction d).scans |>.appendCode hblank
    |>.appendCode (blocks_omitFunction d).scans |>.appendCode hblank
    |>.appendCode (blocks_callFunction d options.fullResponse).scans
    |>.appendCode hfunctions |>.appendCode hblank
    |>.appendCode hgraphql |>.appendCode hblank |>.appendCode hexports
  simp only [List.append_nil, List.nil_append] at hall
  exact ⟨_, rfl, hall⟩

/-- **A plugin module has the comments of its types.** -/
theorem exists_pluginModule (d : Dialect) (options : Options) (h : s.Written)
    (htypes : Scans (lineChars (if d.typescript then declarations s options.flavor else [])) f) :
    ∃ rest, pluginModule d options s = tidy (s.header :: rest) ∧ Scans (lineChars rest) f := by
  have hblank : Scans (lineChars [""]) [] := quiet_blank
  have hplugin := quiet_of_isWord h.plugin
  have hpackage : Quiet (Json.quote options.runtimePackage) := quiet_quote _
  have hnames : Quiet (record [builder s]) :=
    quiet_record (List.forall_mem_singleton.2 (quiet_builder s))
  have himports : Scans (lineChars (if d.modules then
      ["import " ++ record [builder s] ++ " from " ++ Json.quote options.runtimePackage]
      else ["'use strict'", "", "const " ++ record [builder s] ++ " = require(" ++
        Json.quote options.runtimePackage ++ ")"])) [] := by
    have himport : Quiet "import " := quiet_literal rfl
    have hfrom : Quiet " from " := quiet_literal rfl
    have hconst : Quiet "const " := quiet_literal rfl
    have hrequire : Quiet " = require(" := quiet_literal rfl
    have hclose : Quiet ")" := quiet_literal rfl
    split
    · exact quiet_lines (List.forall_mem_singleton.2 (((himport.append hnames).append hfrom).append
        hpackage))
    · refine quiet_lines ?_
      simp only [List.forall_mem_cons]
      exact ⟨quiet_literal rfl, quiet_empty,
        (((hconst.append hnames).append hrequire).append hpackage).append hclose,
        List.forall_mem_nil _⟩
  have hexports : Scans (lineChars (if d.modules then ["export default " ++ s.plugin]
      else ["module.exports = " ++ record ["routes", s.factory, s.plugin],
        "module.exports.default = " ++ s.plugin])) [] := by
    have hdefault : Quiet "export default " := quiet_literal rfl
    have hassign : Quiet "module.exports.default = " := quiet_literal rfl
    split
    · exact quiet_lines (List.forall_mem_singleton.2 (hdefault.append hplugin))
    · refine quiet_lines (List.forall_mem_cons.2 ⟨quiet_moduleExports ?_,
        List.forall_mem_singleton.2 (hassign.append hplugin)⟩)
      simp only [List.forall_mem_cons]
      exact ⟨quiet_literal rfl, quiet_of_isWord h.factory, hplugin, List.forall_mem_nil _⟩
  have hall := himports.appendCode htypes |>.appendCode hblank
    |>.appendCode (blocks_routesTable d s).scans |>.appendCode hblank
    |>.appendCode (blocks_factoryFunction d options h).scans |>.appendCode hblank
    |>.appendCode (blocks_pluginFunction d h).scans |>.appendCode hblank |>.appendCode hexports
  simp only [List.append_nil, List.nil_append] at hall
  exact ⟨_, rfl, hall⟩

/-! ## Artifacts -/

/-- The comments of the functions of a definition: the summaries of its operations.  A plugin has
one function for all operations, and so has a browser module for a GraphQL schema. -/
def summaryComments (api : Definition) (options : Options) : List String :=
  if options.flavor = .fullNodePlugin ∨ api.kind = .graphql then []
  else api.operations.flatMap fun op => docText op.summary ""

/-- The comments below the first line of an artifact. -/
def artifactComments (api : Definition) (options : Options) : ArtifactKind → List String
  | .declarations => declaredComments api options
  | .bindings => summaryComments api options
  | .combined => declaredComments api options ++ summaryComments api options

theorem Nameable.summaries (h : Nameable api.types) (hflavor : options.flavor ≠ .fullNodePlugin) :
    (Surface.of api options).summaries = summaryComments api options := by
  have hgraphql : (Surface.of api options).graphql = decide (api.kind = .graphql) := rfl
  rw [Surface.summaries, summaryComments, hgraphql, ← h.map_operation options, List.flatMap_map]
  by_cases hkind : api.kind = .graphql <;> simp [hkind, hflavor]

theorem exists_bindings (h : Nameable api.types) (options : Options) : ∃ rest,
    bindings options (Surface.of api options) = tidy (headerLine api :: rest) ∧
      Scans (lineChars rest)
        (artifactComments api options (if options.typescript then .combined else .bindings)) := by
  have htypes : Scans (lineChars (if options.dialect.typescript then
      declarations (Surface.of api options) options.flavor else []))
      (if options.typescript then declaredComments api options else []) := by
    cases htypescript : options.typescript with
    | false =>
      rw [Options.dialect, htypescript]
      exact scans_nil
    | true =>
      rw [Options.dialect, htypescript]
      have hnone : Scans (lineChars []) [] := scans_nil
      obtain ⟨rest, hrest, hscans⟩ := h.exists_declarationsBelow options options.flavor hnone
      have hall := (quiet_blank.appendCode hscans).tidy
      rw [if_pos rfl, declarations, hrest]
      exact hall
  have hcomments :
      artifactComments api options (if options.typescript then .combined else .bindings) =
        (if options.typescript then declaredComments api options else []) ++
          summaryComments api options := by
    cases options.typescript <;> rfl
  rw [hcomments, bindings]
  cases hflavor : options.flavor with
  | fullNodePlugin =>
    obtain ⟨rest, hrest, hscans⟩ :=
      exists_pluginModule options.dialect options (h.written options) htypes
    have hnone : summaryComments api options = [] := if_pos (.inl hflavor)
    refine ⟨rest, hrest, ?_⟩
    rwa [hnone, List.append_nil]
  | frontend | typesOnly =>
    rw [← h.summaries (by rw [hflavor]; exact Flavor.noConfusion)]
    exact exists_frontendModule options.dialect options (h.written options) htypes

/-- Everything below the first line of an artifact has the comments that are meant. -/
theorem exists_below (h : Nameable api.types) {artifact : Artifact}
    (ha : artifact ∈ emit api options) :
    ∃ rest, artifact.contents = textOf (tidy (headerLine api :: rest)) ∧
      Scans (lineChars rest) (artifactComments api options artifact.kind) := by
  rcases mem_emit ha with ⟨hkind, hcontents⟩ | ⟨hcontents, hkind⟩
  · obtain ⟨rest, hrest, hscans⟩ := h.exists_declarationsBelow options options.flavor
      (h.quiet_ambient options.flavor)
    refine ⟨rest, ?_, ?_⟩
    · rw [hcontents, standalone, hrest]
      rfl
    · rw [hkind]
      exact hscans
  · obtain ⟨rest, hrest, hscans⟩ := exists_bindings h options
    exact ⟨rest, by rw [hcontents, hrest], hkind ▸ hscans⟩

/-! ## The first line -/

theorem endsLine_spaced (c : Char) : endsLine (spaced c) = (c == '\u2028' || c == '\u2029') := by
  by_cases hbreak : c = '\r' ∨ c = '\n'
  · rcases hbreak with rfl | rfl <;> decide
  · obtain ⟨hreturn, hnewline⟩ := not_or.1 hbreak
    rw [spaced, if_neg hbreak, endsLine, beq_false_of_ne hreturn, beq_false_of_ne hnewline]
    rfl

/-- The characters of the first line behind its slashes. -/
def headerChars (api : Definition) : List Char :=
  (" Generated by clientgen from " ++ api.title ++ " " ++ api.version ++
    ". Do not edit.").toList.map spaced

/-- The line goes on to its end if title and version have no other ends of lines in them. -/
theorem forall_headerChars : (∀ c ∈ headerChars api, endsLine c = false) ↔
    ∀ c ∈ (api.title ++ api.version).toList, c ≠ '\u2028' ∧ c ≠ '\u2029' := by
  have hends (c : Char) : endsLine (spaced c) = false ↔ c ≠ '\u2028' ∧ c ≠ '\u2029' := by
    rw [endsLine_spaced]
    simp
  have hwords : ∀ c ∈ " Generated by clientgen from ".toList, c ≠ '\u2028' ∧ c ≠ '\u2029' := by simp
  have hspace : ∀ c ∈ " ".toList, c ≠ '\u2028' ∧ c ≠ '\u2029' := by simp
  have hend : ∀ c ∈ ". Do not edit.".toList, c ≠ '\u2028' ∧ c ≠ '\u2029' := by simp
  rw [headerChars, List.forall_mem_map]
  simp only [hends, String.toList_append, List.forall_mem_append]
  exact ⟨fun h => ⟨h.1.1.1.2, h.1.2⟩, fun h => ⟨⟨⟨⟨hwords, h.1⟩, hspace⟩, h.2⟩, hend⟩⟩

theorem headerLine_eq (api : Definition) :
    (headerLine api).toList = '/' :: '/' :: headerChars api :=
  toList_headerLine api

/-- The line does not end in white space. -/
theorem trimEnd_headerLine (api : Definition) :
    trimEnd (headerLine api).toList = (headerLine api).toList := by
  have hend : ". Do not edit.".toList = ". Do not edit".toList ++ ['.'] := by decide +kernel
  have hblank : isBlank '.' = false := (isBlank_of_lt (by decide)).trans rfl
  rw [headerLine_eq, headerChars, String.toList_append, hend, List.map_append, List.map_append,
    ← List.append_assoc, ← List.cons_append, ← List.cons_append]
  exact trimEnd_append_of_not_blank hblank

theorem oneLine_headerLine (api : Definition) : OneLine (headerLine api) := by
  rw [OneLine, toList_headerLine, List.mem_cons, List.mem_cons, not_or, not_or]
  exact ⟨by decide, by decide, newline_notMem_spaced _⟩

/-- Behind the first line stands what is below it. -/
theorem exists_body (h : Nameable api.types) {artifact : Artifact}
    (ha : artifact ∈ emit api options) :
    ∃ body, artifact.contents = headerLine api ++ "\n" ++ body ∧
      Scans body.toList (artifactComments api options artifact.kind) := by
  obtain ⟨rest, hcontents, hscans⟩ := exists_below h ha
  have hne : (headerLine api).toList ≠ [] := by
    rw [headerLine_eq]
    exact List.cons_ne_nil _ _
  obtain ⟨body, hbody, hbelow⟩ :=
    exists_textOf_tidy_cons (oneLine_headerLine api) hne (trimEnd_headerLine api) rest
  refine ⟨String.ofList body, ?_, ?_⟩
  · rw [hcontents, ← String.toList_inj, hbody]
    simp
  · rw [String.toList_ofList]
    exact hbelow _ hscans

/-- If the first comment of a file is its first line, no character of the line ends it. -/
theorem endsLine_of_comments {body : String}
    (h : comments? (headerLine api ++ "\n" ++ body) = some (headerLine api :: f)) :
    ∀ c ∈ headerChars api, endsLine c = false := by
  have hchars : (headerLine api ++ "\n" ++ body).toList =
      '/' :: '/' :: (headerChars api ++ '\n' :: body.toList) := by
    rw [String.toList_append, String.toList_append, headerLine_eq]
    simp
  by_contra hends
  simp only [not_forall, Bool.not_eq_false] at hends
  obtain ⟨c, hc, hend⟩ := hends
  obtain ⟨t, hrun, hfound⟩ := Option.bind_eq_some_iff.1 h
  rw [hchars] at hrun
  obtain ⟨comment, hfirst, hshort⟩ := exists_shorter ⟨c, hc, hend⟩ hrun
  have hsame : t.comments = headerLine api :: f := by
    split at hfound
    · exact Option.some.inj hfound
    · cases hfound
  rw [hsame, List.head?_cons] at hfirst
  rw [← Option.some.inj hfirst, ← String.length_toList, headerLine_eq] at hshort
  simp at hshort

/-- If none does, the first line is the first comment. -/
theorem comments_of_endsLine {body : String} (h : ∀ c ∈ headerChars api, endsLine c = false)
    (hbody : Scans body.toList f) :
    comments? (headerLine api ++ "\n" ++ body) = some (headerLine api :: f) := by
  have hline := (scans_line h).append hbody
  rw [← headerLine_eq, trimEnd_headerLine, String.ofList_toList] at hline
  refine Scans.comments_eq ?_
  rw [String.toList_append, String.toList_append, headerLine_eq]
  simpa using hline

/-- **What a schema says stays in its comments**, but for the first line of a file: that is a
comment to its end just when title and version have no line or paragraph separators in them. -/
theorem comments_emitted (h : Nameable api.types) {artifact : Artifact}
    (ha : artifact ∈ emit api options) :
    ∃ body, artifact.contents = headerLine api ++ "\n" ++ body ∧
      comments? body = some (artifactComments api options artifact.kind) ∧
      (comments? artifact.contents =
          some (headerLine api :: artifactComments api options artifact.kind) ↔
        ∀ c ∈ (api.title ++ api.version).toList, c ≠ '\u2028' ∧ c ≠ '\u2029') := by
  obtain ⟨body, hcontents, hbody⟩ := exists_body h ha
  refine ⟨body, hcontents, hbody.comments_eq, ?_⟩
  rw [hcontents, ← forall_headerChars]
  exact ⟨endsLine_of_comments, fun hends => comments_of_endsLine hends hbody⟩

/-- A document with a type that is described, whose title has a line separator in it. -/
def annotatedDocument : Json := .object [
  ("components", .object [("schemas", .object [("Note", .object [
    ("description", .string "Bad */ text"),
    ("type", .string "string")])])]),
  ("info", .object [("title", .string "T\u2028alert(1)"), ("version", .string "1")]),
  ("openapi", .string "3.0.3"),
  ("paths", .object [])]

/-- The definition of the document. -/
def annotatedApi : Definition :=
  match normalize annotatedDocument none with
  | .ok api => api
  | .error _ => ⟨.openApi, "", "", [], [], .empty, none⟩

theorem normalize_annotated : normalize annotatedDocument none = .ok annotatedApi := by
  obtain ⟨api, hapi⟩ := exists_eq_ok (m := normalize annotatedDocument none) (by decide +kernel)
  rw [annotatedApi, hapi]

/-- The description stays in its comment. -/
theorem comments_emitted_annotated :
    (Nameable annotatedApi.types ∧ declarationsFile annotatedApi ∈ emit annotatedApi typesOnly) ∧
      ∃ body, (declarationsFile annotatedApi).contents = headerLine annotatedApi ++ "\n" ++ body ∧
        comments? body = some ["/** Bad *\\/ text */"] := by
  have hnameable := nameable_of_normalize normalize_annotated
  have hcomments : artifactComments annotatedApi typesOnly .declarations =
      ["/** Bad *\\/ text */"] := by
    decide +kernel
  obtain ⟨body, hbody, hfound, -⟩ := comments_emitted hnameable (mem_emit_typesOnly annotatedApi)
  exact ⟨⟨hnameable, mem_emit_typesOnly _⟩, body, hbody, hcomments ▸ hfound⟩

/-- The title does not: what stands behind the separator is code. -/
theorem not_comments_annotated :
    ¬∀ (api : Definition) (options : Options) (artifact : Artifact), Nameable api.types →
      artifact ∈ emit api options → comments? artifact.contents =
        some (headerLine api :: artifactComments api options artifact.kind) := by
  intro hclaim
  have hnameable := nameable_of_normalize normalize_annotated
  have hmeant := hclaim annotatedApi typesOnly _ hnameable (mem_emit_typesOnly annotatedApi)
  obtain ⟨body, hcontents, -⟩ := exists_body hnameable (mem_emit_typesOnly annotatedApi)
  rw [hcontents] at hmeant
  have hseparator :
      '\u2028' ∈ (annotatedApi.title ++ annotatedApi.version).toList := by decide +kernel
  exact (forall_headerChars.1 (endsLine_of_comments hmeant) _ hseparator).1 rfl

end TypedClient.Emit
