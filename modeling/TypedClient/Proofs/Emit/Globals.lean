import TypedClient.Emit.Frontend
import TypedClient.Proofs.Emit.Surface
import TypedClient.Proofs.TypeNames

/-!
# Names that emitted code relies on

Functions of operations are told apart from each other and from what a module for browsers defines
itself, whatever the ids of the operations are.  Names of the language are not among those that are
taken: a function gets such a name if the id of an operation is made into it, and a declared type if
the name of a component is.

* `FunctionsApart` says this of the functions, and `functionsApart_surface` shows it;
* `namesApart_of_normalize` is the statement for all definitions, and `not_apart_from_globals` a
  document where both happen.
-/

set_option autoImplicit false

namespace TypedClient.Emit

open TypedClient.Api TypedClient.Naming TypedClient.Text TypedClient.Types

/-- What the module for browsers finds in its environment. -/
def moduleGlobals : List String :=
  ["fetch", "URLSearchParams", "Object", "Array", "String", "JSON", "Error", "encodeURIComponent"]

/-- The types of the environment that declarations refer to. -/
def declarationGlobals : List String := ["Record", "Promise", "FormData", "RequestInit"]

/-- The names of all functions of operations. -/
def Surface.functions (s : Surface) : List String := s.entries.map Entry.function

/-- The characters behind a prefix, if they have it. -/
def behind (first : String) (cs : List Char) : List Char :=
  if first.toList.isPrefixOf cs then cs.drop first.toList.length else cs

/-- The name that a line declares: that of a function or of a variable.  Lines inside of functions
are indented and declare nothing. -/
def declaredName? (line : String) : Option String :=
  let cs := behind "async " (behind "export " line.toList)
  ["function ", "let ", "const "].findSome? fun word =>
    if word.toList.isPrefixOf cs then
      some (String.ofList ((cs.drop word.toList.length).takeWhile isIdentifierPart))
    else none

/-- The names that lines of code declare. -/
def declaredNames (code : Code) : List String := code.filterMap declaredName?

/-- What every module for browsers defines itself. -/
def helpers (d : Dialect) (fullResponse : Bool) (s : Surface) : Code :=
  settings d s ++ appendQueryFunction d ++ omitFunction d ++ callFunction d fullResponse ++
    graphqlFunction d fullResponse s

/-- The functions of operations are told apart from what the module defines. -/
structure FunctionsApart (operations : List Operation) (s : Surface) : Prop where
  /-- Every operation has a function. -/
  length_eq : s.functions.length = operations.length
  /-- No two functions have the same name. -/
  nodup : s.functions.Nodup
  /-- The names are identifiers. -/
  identifiers : ∀ name ∈ s.functions, isIdentifier name = true
  /-- The module declares the function of an operation under its name. -/
  declared : ∀ (d : Dialect), ∀ e ∈ s.entries, declaredNames (operationFunction d e) = [e.function]
  /-- The module declares nothing else under these names. -/
  helpers : ∀ (d : Dialect) (fullResponse : Bool),
    ∀ name ∈ declaredNames (helpers d fullResponse s), name ∉ s.functions
  /-- They are not those of the client. -/
  client : ∀ name ∈ s.functions, name ≠ s.factory ∧ name ≠ s.plugin
  /-- A function has the name of something in the environment just if the id of an operation is made
  into it. -/
  globals : ∀ name ∈ moduleGlobals, name ∈ s.functions ↔ ∃ op ∈ operations, valueName op.id = name

variable {operations : List Operation} {taken : List String} {name : String}

/-! ## What a module declares -/

theorem declaredNames_append (code more : Code) :
    declaredNames (code ++ more) = declaredNames code ++ declaredNames more := List.filterMap_append

/-- Lines that start with a space or a slash declare nothing. -/
theorem declaredNames_eq_nil {code : Code}
    (h : ∀ line ∈ code, ∃ mark rest, mark ∈ [' ', '/'] ∧ line.toList = mark :: rest) :
    declaredNames code = [] := by
  refine List.filterMap_eq_nil_iff.2 fun line hline => ?_
  obtain ⟨mark, rest, hmark, hchars⟩ := h line hline
  simp only [List.mem_cons, List.not_mem_nil, or_false] at hmark
  rcases hmark with rfl | rfl
  all_goals simp [declaredName?, behind, hchars]

theorem declaredNames_indented (code : Code) : declaredNames (indented code) = [] := by
  refine declaredNames_eq_nil fun line hline => ?_
  obtain ⟨inner, -, rfl⟩ := List.mem_map.1 hline
  exact ⟨' ', ' ' :: inner.toList, List.mem_cons_self, by rw [String.toList_append]; rfl⟩

theorem declaredNames_docComment (text : Option String) :
    declaredNames (Declaration.docComment text "") = [] := by
  refine declaredNames_eq_nil fun line hline => ?_
  obtain ⟨mark, rest, hmark, hchars, -⟩ := Declaration.mem_docComment hline
  exact ⟨mark, rest, hmark, hchars⟩

/-- The words that may stand before a function. -/
def functionWords : List String := ["", "export ", "async ", "export async "]

theorem mem_functionWords (d : Dialect) :
    d.exported ∈ functionWords ∧ d.exported ++ "async " ∈ functionWords := by
  rw [Dialect.exported]
  split <;> decide

theorem takeWhile_identifier {name : String} (hname : ∀ c ∈ name.toList, isIdentifierPart c = true)
    {next : Char} (hnext : isIdentifierPart next = false) (rest : List Char) :
    (name.toList ++ next :: rest).takeWhile isIdentifierPart = name.toList := by
  rw [List.takeWhile_append_of_pos hname, List.takeWhile_cons_of_neg, List.append_nil]
  rw [hnext]
  exact Bool.false_ne_true

/-- A function declares its name. -/
theorem declaredNames_function (d : Dialect) {words name : String}
    (hwords : words ∈ functionWords)
    (hname : ∀ c ∈ name.toList, isIdentifierPart c = true) (parameters : List String)
    (result : String) (body : Code) :
    declaredNames (d.function words name parameters result body) = [name] := by
  have hhead (rest : String) :
      declaredName? (words ++ "function " ++ name ++ " " ++ rest) = some name := by
    have hspace : isIdentifierPart ' ' = false := by decide
    simp only [functionWords, List.mem_cons, List.not_mem_nil, or_false] at hwords
    rcases hwords with rfl | rfl | rfl | rfl
    all_goals simp [declaredName?, behind, String.toList_append, takeWhile_identifier hname hspace]
  have hlines : d.function words name parameters result body =
      (words ++ "function " ++ name ++ " " ++
        (d.typed ("(" ++ ", ".intercalate parameters ++ ")") result ++ " " ++ "\x7b")) ::
          (indented body ++ ["\x7d" ++ ""]) := by
    rw [Dialect.function, block, enclosed]
    simp [String.append_assoc]
  have hend : declaredNames ["\x7d" ++ ""] = [] := by decide
  rw [hlines, declaredNames, List.filterMap_cons_some (hhead _), ← declaredNames,
    declaredNames_append, declaredNames_indented, hend]
  rfl

/-- A variable declares its name. -/
theorem declaredNames_let (d : Dialect) {name : String}
    (hname : ∀ c ∈ name.toList, isIdentifierPart c = true) (type value : String) (code : Code) :
    declaredNames (("let " ++ d.typed name type ++ " = " ++ value) :: code)
      = name :: declaredNames code := by
  have hcolon : isIdentifierPart ':' = false := by decide
  have hspace : isIdentifierPart ' ' = false := by decide
  rw [declaredNames, List.filterMap_cons_some, ← declaredNames]
  rw [Dialect.typed]
  split
  all_goals simp [declaredName?, behind, String.toList_append, takeWhile_identifier hname hcolon,
    takeWhile_identifier hname hspace]

/-- The names that are taken are those the module declares itself, and one more. -/
theorem moduleNames_eq (d : Dialect) (fullResponse : Bool) (s : Surface) :
    moduleNames = declaredNames (helpers d fullResponse s) ++ ["routes"] := by
  obtain ⟨hexported, hasync⟩ := mem_functionWords d
  rw [helpers, settings, appendQueryFunction, omitFunction, callFunction, graphqlFunction]
  simp only [declaredNames_append]
  have hplain {name : String} (h : name.toList.all isIdentifierPart = true) :
      ∀ c ∈ name.toList, isIdentifierPart c = true := List.all_eq_true.1 h
  have hlocal : "" ∈ functionWords ∧ "async " ∈ functionWords := by decide
  rw [declaredNames_function d hexported (hplain (by decide)),
    declaredNames_function d hexported (hplain (by decide)),
    declaredNames_function d hexported (hplain (by decide)),
    declaredNames_function d hlocal.1 (hplain (by decide)),
    declaredNames_function d hlocal.1 (hplain (by decide)),
    declaredNames_function d hlocal.2 (hplain (by decide)),
    declaredNames_function d hasync (hplain (by decide))]
  have hlets (base : String) : declaredNames ["let " ++ d.typed "baseUrl" "string" ++ " = " ++ base,
      "let " ++ d.typed "defaultHeaders" "Record<string, string>" ++ " = " ++ emptyRecord,
      "let " ++ d.typed "defaultFetchParams" "RequestInit" ++ " = " ++ emptyRecord, ""]
        = ["baseUrl", "defaultHeaders", "defaultFetchParams"] := by
    rw [declaredNames_let d (hplain (by decide)), declaredNames_let d (hplain (by decide)),
      declaredNames_let d (hplain (by decide))]
    rfl
  rw [hlets]
  rfl

/-- The module declares the function of an operation. -/
theorem declaredNames_operationFunction (d : Dialect) {e : Entry}
    (he : isIdentifier e.function = true) :
    declaredNames (operationFunction d e) = [e.function] := by
  rw [operationFunction, declaredNames_append, declaredNames_docComment, List.nil_append]
  exact declaredNames_function d (mem_functionWords d).2 (isIdentifierPart_of_isIdentifier he) _ _ _

/-! ## Functions -/

theorem functionNames_cons (op : Operation) (operations : List Operation) (taken : List String) :
    functionNames (op :: operations) taken =
      let first := freeName taken (valueName op.id)
      let rest := functionNames operations (first :: taken)
      (first :: rest.1, rest.2) := by
  rw [functionNames, List.mapM_cons]
  rfl

/-- What the names of functions have to do with the operations. -/
structure NamesFunctions (taken : List String) (operations : List Operation)
    (functions after : List String) : Prop where
  /-- The names are claimed. -/
  claimed : Claimed taken functions after
  /-- Each is made from the id of its operation. -/
  made : List.Forall₂ (fun op name => ∃ others, name = freeName others (valueName op.id)) operations
    functions
  /-- What the ids are made into is taken after. -/
  candidates : ∀ op ∈ operations, valueName op.id ∈ after

theorem namesFunctions (operations : List Operation) (taken : List String) :
    NamesFunctions taken operations (functionNames operations taken).1
      (functionNames operations taken).2 := by
  induction operations generalizing taken with
  | nil => exact ⟨.nil taken, .nil, List.forall_mem_nil _⟩
  | cons op operations ih =>
    obtain ⟨hclaimed, hmade, hcandidates⟩ := ih (freeName taken (valueName op.id) :: taken)
    have hfirst : Claimed taken [freeName taken (valueName op.id)]
        (freeName taken (valueName op.id) :: taken) := by
      refine ⟨List.nodup_singleton _, List.forall_mem_singleton.2 (freeName_not_mem _ _),
        fun name => ?_⟩
      rw [List.mem_cons, List.mem_singleton, or_comm]
    rw [functionNames_cons]
    refine ⟨hfirst.append hclaimed, .cons ⟨taken, rfl⟩ hmade,
      List.forall_mem_cons.2 ⟨?_, hcandidates⟩⟩
    refine (hclaimed.mem_iff _).2 (.inl ?_)
    by_cases hmem : valueName op.id ∈ taken
    · exact List.mem_cons_of_mem _ hmem
    · rw [freeName_of_not_mem hmem]
      exact List.mem_cons_self

/-- A name without a number that was not taken is that of a function just if an id is made into
it. -/
theorem NamesFunctions.mem_iff {functions after : List String}
    (h : NamesFunctions taken operations functions after) (hnumber : ¬EndsInDigit name)
    (hfree : name ∉ taken) : name ∈ functions ↔ ∃ op ∈ operations, valueName op.id = name := by
  constructor
  · intro hname
    obtain ⟨op, hop, others, rfl⟩ := exists_of_mem_right h.made hname
    exact ⟨op, hop, candidate_eq_of_freeName hnumber⟩
  · rintro ⟨op, hop, rfl⟩
    exact ((h.claimed.mem_iff _).1 (h.candidates op hop)).resolve_left hfree

/-! ## Surfaces -/

theorem length_entryTypes (g : TypeGraph) (options : Options) (operations : List Operation)
    (taken : List String) :
    (entryTypes g options operations taken).1.length = operations.length := by
  induction operations generalizing taken with
  | nil => rfl
  | cons op operations ih =>
    rw [entryTypes, List.mapM_cons]
    exact congrArg (· + 1) (ih _)

/-- The functions of a surface. -/
theorem functions_surface (api : Definition) (options : Options) :
    (Surface.of api options).functions = (functionNames api.operations
      ((Surface.of api options).factory :: (Surface.of api options).plugin :: moduleNames)).1 := by
  have hentries : (Surface.of api options).entries =
      (api.operations.zip ((functionNames api.operations ((Surface.of api options).factory ::
        (Surface.of api options).plugin :: moduleNames)).1.zip
          (surfaceTypes api options (Dict.keys api.types.names)).1.2.2)).map fun x =>
            ⟨x.1, x.2.1, x.2.2, callOf api.types options.fullRequest x.1⟩ := rfl
  generalize hfunctions : (functionNames api.operations ((Surface.of api options).factory ::
    (Surface.of api options).plugin :: moduleNames)).1 = functions at hentries ⊢
  have hlength : functions.length = api.operations.length := by
    rw [← hfunctions]
    exact (namesFunctions _ _).made.length_eq.symm
  have htypes : (surfaceTypes api options (Dict.keys api.types.names)).1.2.2.length
      = api.operations.length := length_entryTypes _ _ _ _
  rw [Surface.functions, hentries, List.map_map]
  calc _ = ((api.operations.zip (functions.zip _)).map Prod.snd).map Prod.fst := by
        rw [List.map_map]
        rfl
    _ = functions := by
        rw [List.map_snd_zip, List.map_fst_zip]
        · omega
        · rw [List.length_zip]
          omega

/-- Nothing in the environment has the name of a function that a client adds. -/
theorem not_mem_moduleGlobals_append {base ending : String}
    (hending : ending ∈ ["Client", "Plugin"]) :
    base ++ ending ∉ moduleGlobals := by
  have hends : ∀ name ∈ moduleGlobals, ∀ ending ∈ ["Client", "Plugin"],
      ¬ending.toList <:+ name.toList := by decide
  intro hmem
  refine hends _ hmem ending hending ?_
  rw [String.toList_append]
  exact List.suffix_append _ _

/-- **Functions of operations are told apart** from each other and from what the module defines. -/
theorem functionsApart_surface (api : Definition) (options : Options) :
    FunctionsApart api.operations (Surface.of api options) := by
  have hnames := namesFunctions api.operations
    ((Surface.of api options).factory :: (Surface.of api options).plugin :: moduleNames)
  rw [← functions_surface] at hnames
  have hfree (name : String) (hname : name ∈ (Surface.of api options).functions) :=
    hnames.claimed.free name hname
  simp only [List.mem_cons, not_or] at hfree
  have hidentifier (name : String) (hname : name ∈ (Surface.of api options).functions) :
      isIdentifier name = true := by
    obtain ⟨op, -, others, rfl⟩ := exists_of_mem_right hnames.made hname
    exact isIdentifier_freeName others (isIdentifier_valueName op.id)
  refine ⟨hnames.made.length_eq.symm, hnames.claimed.nodup, hidentifier, fun d e he => ?_,
    fun d fullResponse name hname hfunction => ?_, fun name hname => ⟨(hfree name hname).1,
      (hfree name hname).2.1⟩, fun name hname => hnames.mem_iff ?_ ?_⟩
  · exact declaredNames_operationFunction d (hidentifier _ (List.mem_map_of_mem he))
  · refine (hfree name hfunction).2.2 ?_
    rw [moduleNames_eq d fullResponse (Surface.of api options)]
    exact List.mem_append_left _ hname
  · exact (by decide : ∀ name ∈ moduleGlobals, ¬EndsInDigit name) name hname
  · simp only [List.mem_cons, not_or]
    refine ⟨?_, ?_, (by decide : ∀ name ∈ moduleGlobals, name ∉ moduleNames) name hname⟩
    · rintro rfl
      exact not_mem_moduleGlobals_append (by decide) hname
    · rintro rfl
      exact not_mem_moduleGlobals_append (by decide) hname

/-! ## Definitions -/

variable {document : Json} {kind : Option SchemaKind} {api : Definition}

/-- **Generated names are told apart** from each other and from what the generated code defines.
They are those of the environment just if the document has such a name. -/
theorem namesApart_of_normalize (h : normalize document kind = .ok api) (options : Options) :
    FunctionsApart api.operations (Surface.of api options) ∧
      ∀ name ∈ declarationGlobals, (∃ id, api.types.lookup name = some id) ↔
        ∃ source, NamesType document api source ∧ typeName source = name := by
  refine ⟨functionsApart_surface api options, fun name hname => ?_⟩
  exact (labelled_of_normalize h).lookup_iff
    ((by decide : ∀ name ∈ declarationGlobals, ¬EndsInDigit name) name hname)

/-- A document with an operation and a component that have names of the environment. -/
def environmentDocument : Json := .object [
  ("components", .object [("schemas", .object [("Record", .object [
    ("properties", .object [("title", .object [("type", .string "string")])]),
    ("type", .string "object")])])]),
  ("openapi", .string "3.0.3"),
  ("paths", .object [("/movies", .object [("get", .object [
    ("operationId", .string "fetch"),
    ("responses", .object [("200", .object [("description", .string "all movies")])])])])])]

/-- The definition of the document. -/
def environmentApi : Definition :=
  match normalize environmentDocument none with
  | .ok api => api
  | .error _ => ⟨.openApi, "", "", [], [], .empty, none⟩

theorem normalize_environment : normalize environmentDocument none = .ok environmentApi := by
  obtain ⟨api, hapi⟩ := exists_eq_ok (m := normalize environmentDocument none) (by decide +kernel)
  rw [environmentApi, hapi]

theorem typeName_record : typeName "Record" = "Record" := by
  have hplain : ∀ c ∈ "ecord".toList, isAlphanumeric c = true ∧ isUppercase c = false := by
    intro c hc
    have hc : c ∈ ['e', 'c', 'o', 'r', 'd'] := hc
    simp only [List.mem_cons, List.not_mem_nil, or_false] at hc
    rcases hc with rfl | rfl | rfl | rfl | rfl
    all_goals
      rw [isAlphanumeric_ascii (by decide), isUppercase_ascii (by decide)]
      decide
  have hfirst : isAlphanumeric 'R' = true := by
    rw [isAlphanumeric_ascii (by decide)]
    decide
  have hwords : words "Record" = ["Record"] := words_of_plain hfirst hplain
  rw [typeName, pascalCase, hwords]
  decide +kernel

/-- The component is a named type. -/
theorem namesType_record : NamesType environmentDocument environmentApi "Record" := by
  have hkeys : (OpenApi.Document.ofJson environmentDocument).toOption.all
      (fun d => (Dict.keys d.schemas).contains "Record") = true := by decide +kernel
  obtain ⟨d, hd, -⟩ :=
    OpenApi.exists_document_of_normalize normalize_environment (by decide +kernel)
  rw [hd] at hkeys
  exact .component (by decide +kernel) hd (List.contains_iff_mem.1 hkeys)

theorem mem_environment : ∃ op ∈ environmentApi.operations, valueName op.id = "fetch" := by
  have hany : environmentApi.operations.any (fun op => valueName op.id == "fetch") = true := by
    decide +kernel
  obtain ⟨op, hop, hid⟩ := List.any_eq_true.1 hany
  exact ⟨op, hop, eq_of_beq hid⟩

theorem namesApart_of_normalize_environment :
    normalize environmentDocument none = .ok environmentApi ∧
      "fetch" ∈ (Surface.of environmentApi { }).functions ∧
        ∃ id, environmentApi.types.lookup "Record" = some id := by
  obtain ⟨hfunctions, htypes⟩ := namesApart_of_normalize normalize_environment { }
  exact ⟨normalize_environment, (hfunctions.globals "fetch" (by decide)).2 mem_environment,
    (htypes "Record" (by decide)).2 ⟨"Record", namesType_record, typeName_record⟩⟩

/-- Names of the environment are not kept apart. -/
theorem not_apart_from_globals :
    ¬∀ (document : Json) (kind : Option SchemaKind) (api : Definition) (options : Options),
      normalize document kind = .ok api →
        (∀ name ∈ (Surface.of api options).functions, name ∉ moduleGlobals) ∧
          ∀ name ∈ declarationGlobals, api.types.lookup name = none := by
  intro hall
  obtain ⟨hfunctions, -⟩ := hall environmentDocument none environmentApi { } normalize_environment
  have hfetch : "fetch" ∈ (Surface.of environmentApi { }).functions :=
    ((functionsApart_surface environmentApi { }).globals "fetch" (by decide)).2 mem_environment
  exact hfunctions "fetch" hfetch (by decide)

end TypedClient.Emit
