import TypedClient.Proofs.Declaration.Modules
import TypedClient.Proofs.Emit.Surface

/-!
# Reading emitted declarations

A file of declarations holds the declarations of the types of the schema and of operations, and
around them a first line in a comment, the interface of the client, the interface of its options and
declarations of functions.  What is around them is read, and nothing of it is kept: not the first
line (`readsAs_headerLine`), nor the options and the functions (`readsAs_optionsInterface`,
`readsAs_ambientFrontend`, `readsAs_ambientPlugin`).  Only the interface of a client without
operations is kept, since it looks like a type (`readsAs_clientInterface`).
-/

set_option autoImplicit false

namespace TypedClient.Emit

open TypedClient.Api TypedClient.Declaration TypedClient.Types

/-! ## The first line -/

/-- The character, or a space in place of a line break. -/
def spaced (c : Char) : Char := if c = '\r' ∨ c = '\n' then ' ' else c

theorem newline_notMem_spaced (cs : List Char) : '\n' ∉ cs.map spaced := by
  intro hmem
  obtain ⟨c, -, hc⟩ := List.mem_map.1 hmem
  rw [spaced] at hc
  split at hc
  · cases hc
  · rename_i hne
    exact hne (.inr hc)

/-- The first line is a line comment, with spaces for line breaks. -/
theorem toList_headerLine (api : Definition) : (headerLine api).toList =
    '/' :: '/' :: ((" Generated by clientgen from " ++ api.title ++ " " ++ api.version ++
      ". Do not edit.").toList.map spaced) := by
  have hspaced : (fun c => if c = '\r' ∨ c = '\n' then ' ' else c) = spaced := rfl
  rw [headerLine, String.toList_ofList, hspaced]
  simp [show spaced '/' = '/' from rfl]

theorem readsAs_headerLine (api : Definition) : ReadsAs [headerLine api] [] := by
  refine readsAs_of_lexes_nil ?_
  rw [lineChars, List.flatMap_singleton, toList_headerLine]
  exact lexes_lineComment (newline_notMem_spaced _)

/-! ## The interface of the client -/

/-- The type of a promise. -/
def promiseFragments (type : String) : List Fragment :=
  [.word "Promise", .sign '<', .word type, .sign '>']

/-- The request parameter, with a question mark if the argument may be missing. -/
def requestFragments (e : Entry) : List Fragment :=
  [.word "request"] ++ (if e.types.requestOptional then [.sign '?'] else []) ++
    [.sign ':', .space, .word e.types.request]

/-- What a method answers: nothing is known of it in a GraphQL client. -/
def answerType (s : Surface) (e : Entry) : String :=
  if s.graphql then "unknown" else e.types.responses

/-- A method from its parentheses on. -/
def callFragments (s : Surface) (e : Entry) : List Fragment :=
  [.sign '('] ++ requestFragments e ++ [.sign ')', .sign ':', .space] ++
    promiseFragments (answerType s e) ++ [.sign ';']

/-- The line of a method. -/
def methodFragments (s : Surface) (e : Entry) : List Fragment :=
  [.space, .space, .key e.operation.id] ++ callFragments s e

variable {s : Surface} {e : Entry}

theorem Surface.Readable.isWord_request (h : s.Readable) (he : e ∈ s.entries) :
    IsWord e.types.request := isWord_of_isDeclaredName (h.types e he).request

theorem Surface.Readable.isWord_answerType (h : s.Readable) (he : e ∈ s.entries) :
    IsWord (answerType s e) := by
  rw [answerType]
  split
  · rw [IsWord]
    decide
  · exact isWord_of_isDeclaredName (h.types e he).responses

theorem phrase_methodFragments (h : s.Readable) (he : e ∈ s.entries) :
    Phrase (methodFragments s e) := by
  have hrequest : Naming.isIdentifierShaped e.types.request.toList = true := h.isWord_request he
  have hanswer : Naming.isIdentifierShaped (answerType s e).toList = true := h.isWord_answerType he
  rw [methodFragments, callFragments, requestFragments, promiseFragments]
  cases e.types.requestOptional <;>
    simp +decide [Phrase, Fragment.Fits, Fragment.isOpen, hrequest, hanswer]

/-- The line of a method. -/
def methodLine (s : Surface) (e : Entry) : String :=
  let result := if s.graphql then "Promise<unknown>" else e.returnType
  memberLine (Naming.propertyKey e.operation.id ++ "(" ++ e.requestName ++ ": " ++
    e.types.request ++ "): " ++ result)

theorem toList_methodLine (s : Surface) (e : Entry) :
    (methodLine s e).toList = (methodFragments s e).flatMap Fragment.chars := by
  rw [methodLine, methodFragments, callFragments, requestFragments, promiseFragments, answerType,
    Entry.requestName, Entry.returnType]
  cases e.types.requestOptional <;> cases s.graphql <;> simp [memberLine, Fragment.chars]

theorem isMethod_callFragments (s : Surface) (e : Entry) :
    IsMethod ((callFragments s e).filterMap Fragment.token?) := by
  refine ⟨rfl, fun rest => ?_⟩
  rw [callFragments, requestFragments]
  cases e.types.requestOptional <;> rfl

/-- The interface of a client is skipped if it has a method. -/
theorem readsAs_clientInterface (h : s.Readable) :
    ReadsAs (clientInterface s) (if s.entries = [] then [.interface s.clientType []] else []) := by
  let tokens (e : Entry) : Tokens :=
    keyToken e.operation.id :: (callFragments s e).filterMap Fragment.token?
  have hline : ∀ e ∈ s.entries, Lexes (lineChars [methodLine s e]) (some (tokens e)) := fun e he =>
    lexes_line (toList_methodLine s e) (phrase_methodFragments h he)
  have hlines := lexes_flatMap hline
  rw [joinedAll_map_some, ← List.map_eq_flatMap] at hlines
  have hbody : ∀ entries : List Entry, ReadsBody (entries.flatMap tokens ++ [.punct '\x7d'])
      (if entries = [] then some [] else none) := by
    intro entries
    induction entries with
    | nil => exact readsBody_end
    | cons e entries ih =>
      have hmethod := ih.method (isMethod_callFragments s e) e.operation.id false
      rw [List.flatMap_cons, List.append_assoc]
      exact hmethod
  have hall := readsAs_statement
    (lexes_interfaceLines (isWord_of_isDeclaredName h.clientType) hlines)
    ((hbody s.entries).statement _)
  have hkept : ((if s.entries = [] then some [] else none : Members).map
      (Statement.interface s.clientType)).toList
        = if s.entries = [] then [.interface s.clientType []] else [] := by
    split <;> rfl
  rwa [hkept] at hall

/-! ## The interface of options -/

/-- The members of the interface of options but for its method. -/
def optionMembers : List (Member TypeExpr) :=
  [⟨"url", false, .primitive .string⟩, ⟨"path", true, .primitive .string⟩,
    ⟨"schemaUrl", true, .primitive .string⟩, ⟨"graphqlPath", true, .primitive .string⟩,
    ⟨"headers", true, .record (.primitive .string)⟩, ⟨"fullRequest", true, .primitive .boolean⟩,
    ⟨"fullResponse", true, .primitive .boolean⟩, ⟨"throwOnError", true, .primitive .boolean⟩,
    ⟨"validateResponse", true, .primitive .boolean⟩, ⟨"bodyTimeout", true, .primitive .number⟩,
    ⟨"headersTimeout", true, .primitive .number⟩, ⟨"retryTimeoutMs", true, .primitive .number⟩,
    ⟨"maxRetries", true, .primitive .number⟩]

/-- The method of the interface of options from its parentheses on. -/
def getHeadersFragments : List Fragment :=
  [.sign '(', .word "request", .sign ':', .space, .word "unknown", .sign ')', .sign ':', .space,
    .word "Promise", .sign '<', .word "Record", .sign '<', .word "string", .sign ',', .space,
    .word "string", .sign '>', .sign '>', .sign ';']

/-- The line of the method of the interface of options. -/
def getHeadersLine : List Fragment :=
  [.space, .space, .key "getHeaders", .sign '?'] ++ getHeadersFragments

theorem optionsInterface_eq (s : Surface) : ∃ line : String,
    optionsInterface s = interfaceLines s.optionsType
      ((memberTexts optionMembers).map memberLine ++ [line]) ∧
    line.toList = getHeadersLine.flatMap Fragment.chars := by
  refine ⟨"  getHeaders?(request: unknown): Promise<Record<string, string>>;", ?_, by decide⟩
  have hmembers : (memberTexts optionMembers).map memberLine = indented
      ["url: string;", "path?: string;", "schemaUrl?: string;", "graphqlPath?: string;",
        "headers?: Record<string, string>;", "fullRequest?: boolean;", "fullResponse?: boolean;",
        "throwOnError?: boolean;", "validateResponse?: boolean;", "bodyTimeout?: number;",
        "headersTimeout?: number;", "retryTimeoutMs?: number;", "maxRetries?: number;"] := by
    decide
  rw [hmembers]
  simp [optionsInterface, block, enclosed, interfaceLines, indented, String.append_assoc]

theorem readsBody_fields {body : Tokens} (h : ReadsBody body none)
    {members : List (Member TypeExpr)} (hmembers : ∀ m ∈ members, ReadsType m.type) :
    ReadsBody (memberLineTokens members ++ body) none := by
  induction members with
  | nil => exact h
  | cons m members ih =>
    have hrest := ih fun n hn => hmembers n (List.mem_cons_of_mem _ hn)
    have hfirst := hrest.field (hmembers m List.mem_cons_self) m.name m.optional
    have htokens : memberLineTokens (m :: members) ++ body = memberTokens m.name m.optional
        m.type.tokens ++ .punct ';' :: (memberLineTokens members ++ body) := by
      simp [memberLineTokens, tokensOfMembers]
    rw [htokens]
    exact hfirst

/-- The interface of options is skipped because of its method. -/
theorem readsAs_optionsInterface (h : s.Readable) : ReadsAs (optionsInterface s) [] := by
  obtain ⟨line, hlines, hline⟩ := optionsInterface_eq s
  have hmembers : ∀ m ∈ optionMembers, m.type.WellFormed (fun _ => True) true := by
    simp only [optionMembers, List.forall_mem_cons, List.not_mem_nil, false_implies, implies_true,
      and_true]
    repeat' apply And.intro
    all_goals first | exact .primitive _ | exact .record (.primitive _)
  have hfields := lexes_plainMemberLines fun m hm => (hmembers m hm).legible
  have hphrase : Phrase getHeadersLine := by
    simp +decide [Phrase, Fragment.Fits, getHeadersLine, getHeadersFragments]
  have hmethod := lexes_line hline hphrase
  have hskipped : IsMethod (getHeadersFragments.filterMap Fragment.token?) := ⟨rfl, fun _ => rfl⟩
  have hbody := readsBody_fields (readsBody_end.method hskipped "getHeaders" true)
    fun m hm => (hmembers m hm).reads
  have hlexes := hfields.append hmethod
  rw [← lineChars_append] at hlexes
  have hall := lexes_interfaceLines (isWord_of_isDeclaredName h.optionsType) hlexes
  rw [hlines]
  exact readsAs_statement hall (hbody.statement s.optionsType)

/-! ## Declarations of functions -/

/-- A line whose statement is skipped. -/
theorem readsAs_skipped {line : String} (fragments : List Fragment)
    (hline : line.toList = fragments.flatMap Fragment.chars) (hphrase : Phrase fragments)
    (hpos : 0 < (fragments.filterMap Fragment.token?).length)
    (hskip : ∀ rest, readStatement (fragments.filterMap Fragment.token? ++ rest) =
      .ok (none, rest)) :
    ReadsAs [line] [] :=
  readsAs_statement (lexes_line hline hphrase) ⟨hpos, hskip⟩

/-- The declaration of a function from the word `function` on, given its parameters and what it
answers. -/
def functionFragments (name : String) (parameters results : List Fragment) : List Fragment :=
  [.word "function", .space, .word name, .sign '('] ++ parameters ++
    [.sign ')', .sign ':', .space] ++ results ++ [.sign ';']

/-- The words before a declaration of what other modules define. -/
def declareFragments (exported : Bool) : List Fragment :=
  (if exported then [.word "export", .space] else []) ++ [.word "declare", .space]

/-- Tokens that open the brackets they close: whoever skips a statement passes over them. -/
def SkippedAt (depth : Nat) (fragments : List Fragment) : Prop :=
  ∀ rest, skipStatement depth (fragments.filterMap Fragment.token? ++ rest) =
    skipStatement depth rest

/-- The declaration of a function is skipped. -/
theorem readsAs_declaredFunction {name parameter result : String}
    {parameters results : List Fragment}
    (hparameter : parameter.toList = parameters.flatMap Fragment.chars)
    (hresult : result.toList = results.flatMap Fragment.chars)
    (hphrase : Phrase (functionFragments name parameters results))
    (hinside : SkippedAt 1 parameters) (hbehind : SkippedAt 0 results) (exported : Bool) :
    ReadsAs [declaredFunction (if exported then "export declare " else "declare ") name parameter
      result] [] := by
  have hskip : ∀ rest, skipStatement 0
      ((functionFragments name parameters results).filterMap Fragment.token? ++ rest) = rest := by
    intro rest
    have hparameters := hinside (.punct ')' :: .punct ':' ::
      (results.filterMap Fragment.token? ++ .punct ';' :: rest))
    have hresults := hbehind (.punct ';' :: rest)
    have hopened : skipStatement 0
        ((functionFragments name parameters results).filterMap Fragment.token? ++ rest)
          = skipStatement 1 (parameters.filterMap Fragment.token? ++ .punct ')' :: .punct ':' ::
            (results.filterMap Fragment.token? ++ .punct ';' :: rest)) := by
      simp only [functionFragments, List.filterMap_append, List.append_assoc]
      rfl
    rw [hopened, hparameters]
    exact hresults
  have hskipped (rest : Tokens) :
      (.ok (none, skipStatement 0
        ((functionFragments name parameters results).filterMap Fragment.token? ++ rest)) :
        Except SyntaxError (Option Statement × Tokens)) = .ok (none, rest) := by
    rw [hskip rest]
  refine readsAs_skipped (declareFragments exported ++ functionFragments name parameters results)
    ?_ ?_ ?_ fun rest => ?_
  · cases exported <;>
      simp [declaredFunction, declareFragments, functionFragments, Fragment.chars,
        hparameter, hresult]
  · cases exported <;>
      simp +decide [declareFragments, Phrase, Fragment.Fits, Fragment.isOpen, hphrase]
  · cases exported <;> exact Nat.succ_pos _
  · rw [List.filterMap_append, List.append_assoc]
    cases exported <;> exact hskipped rest

/-! ## The functions of a module -/

/-- A function that answers nothing. -/
theorem readsAs_setter {name parameter : String} (parameters : List Fragment)
    (hparameter : parameter.toList = parameters.flatMap Fragment.chars)
    (hphrase : Phrase (functionFragments name parameters [.word "void"]))
    (hinside : SkippedAt 1 parameters) :
    ReadsAs [declaredFunction "export declare " name parameter "void"] [] :=
  readsAs_declaredFunction hparameter (by decide) hphrase hinside (fun _ => rfl) true

/-- A function that answers a promise. -/
theorem readsAs_promising {name parameter result type : String} (parameters : List Fragment)
    (hparameter : parameter.toList = parameters.flatMap Fragment.chars)
    (hresult : result = "Promise<" ++ type ++ ">")
    (hphrase : Phrase (functionFragments name parameters (promiseFragments type)))
    (hinside : SkippedAt 1 parameters) (exported : Bool) :
    ReadsAs [declaredFunction (if exported then "export declare " else "declare ") name parameter
      result] [] :=
  readsAs_declaredFunction hparameter (by simp [hresult, promiseFragments, Fragment.chars]) hphrase
    hinside (fun _ => rfl) exported

/-- The type of a record of strings. -/
def recordFragments : List Fragment :=
  [.word "Record", .sign '<', .word "string", .sign ',', .space, .word "string", .sign '>']

/-- A GraphQL request may have headers beside what its type says. -/
theorem Surface.graphqlRequestType_cases (s : Surface) :
    s.graphqlRequestType = "unknown" ∨ ∃ e ∈ s.entries,
      s.graphqlRequestType =
        e.types.request ++ " & " ++ record ["headers?: Record<string, string>"] := by
  rw [Surface.graphqlRequestType]
  cases hlast : s.entries.getLast? with
  | none => exact .inl rfl
  | some e =>
    dsimp only
    split
    · exact .inr ⟨e, List.mem_of_getLast? hlast, rfl⟩
    · exact .inl rfl

theorem readsAs_graphqlFunction (h : s.Readable) : ReadsAs
    [declaredFunction "export declare " "graphql" ("request: " ++ s.graphqlRequestType)
      "Promise<unknown>"] [] := by
  have hunknown : "Promise<unknown>" = "Promise<" ++ "unknown" ++ ">" := by decide
  rcases s.graphqlRequestType_cases with htype | ⟨e, he, htype⟩
  · rw [htype]
    refine readsAs_promising [.word "request", .sign ':', .space, .word "unknown"] (by decide)
      hunknown ?_ (fun _ => rfl) true
    simp +decide [Phrase, Fragment.Fits, functionFragments, promiseFragments]
  · have hword : Naming.isIdentifierShaped e.types.request.toList = true := h.isWord_request he
    rw [htype]
    refine readsAs_promising
      ([.word "request", .sign ':', .space, .word e.types.request, .space, .sign '&', .space,
        .sign '\x7b', .space, .word "headers", .sign '?', .sign ':', .space] ++ recordFragments ++
        [.space, .sign '\x7d']) ?_ hunknown ?_ (fun _ => rfl) true
    · simp [record, inBraces, recordFragments, Fragment.chars]
    · simp +decide [Phrase, Fragment.Fits, Fragment.isOpen, functionFragments, promiseFragments,
        recordFragments, hword]

/-- The function of an operation. -/
theorem readsAs_operationFunction (h : s.Readable) (he : e ∈ s.entries) : ReadsAs
    [declaredFunction "export declare " e.function (e.requestName ++ ": " ++ e.types.request)
      e.returnType] [] := by
  have hfunction : Naming.isIdentifierShaped e.function.toList = true := h.functions e he
  have hrequest : Naming.isIdentifierShaped e.types.request.toList = true := h.isWord_request he
  have hresponses : Naming.isIdentifierShaped e.types.responses.toList = true :=
    isWord_of_isDeclaredName (h.types e he).responses
  refine readsAs_promising (requestFragments e) ?_ rfl ?_ (fun rest => ?_) true
  · rw [Entry.requestName, requestFragments]
    cases e.types.requestOptional <;> simp [Fragment.chars]
  · rw [requestFragments]
    cases e.types.requestOptional <;>
      simp +decide [Phrase, Fragment.Fits, Fragment.isOpen, functionFragments, promiseFragments,
        hfunction, hrequest, hresponses]
  · rw [requestFragments]
    cases e.types.requestOptional <;> rfl

/-- The functions of a browser module are skipped. -/
theorem readsAs_ambientFrontend (h : s.Readable) : ReadsAs (ambientFrontend s) [] := by
  have hsetters : ReadsAs
      [declaredFunction "export declare " "setBaseUrl" "url: string" "void",
        declaredFunction "export declare " "setDefaultHeaders"
          "headers: Record<string, string>" "void",
        declaredFunction "export declare " "setDefaultFetchParams" "params: RequestInit" "void"]
      [] := by
    refine readsAs_lines (List.forall_mem_cons.2 ⟨?_, List.forall_mem_cons.2 ⟨?_,
      List.forall_mem_singleton.2 ?_⟩⟩)
    · exact readsAs_setter [.word "url", .sign ':', .space, .word "string"] (by decide)
        (by simp +decide [Phrase, Fragment.Fits, functionFragments]) fun _ => rfl
    · exact readsAs_setter ([.word "headers", .sign ':', .space] ++ recordFragments) (by decide)
        (by simp +decide [Phrase, Fragment.Fits, functionFragments, recordFragments]) fun _ => rfl
    · exact readsAs_setter [.word "params", .sign ':', .space, .word "RequestInit"] (by decide)
        (by simp +decide [Phrase, Fragment.Fits, functionFragments]) fun _ => rfl
  rw [ambientFrontend]
  refine hsetters.append (readsAs_lines fun line hline => ?_)
  split at hline
  · rw [List.mem_singleton.1 hline]
    exact readsAs_graphqlFunction h
  · obtain ⟨e, he, rfl⟩ := List.mem_map.1 hline
    exact readsAs_operationFunction h he

/-- What a plugin module defines is skipped. -/
theorem readsAs_ambientPlugin (h : s.Readable) : ReadsAs (ambientPlugin s) [] := by
  have hclient : Naming.isIdentifierShaped s.clientType.toList = true :=
    isWord_of_isDeclaredName h.clientType
  have hoptions : Naming.isIdentifierShaped s.optionsType.toList = true :=
    isWord_of_isDeclaredName h.optionsType
  have hfactory : Naming.isIdentifierShaped s.factory.toList = true := h.factory
  have hplugin : Naming.isIdentifierShaped s.plugin.toList = true := h.plugin
  have hvoid : "Promise<void>" = "Promise<" ++ "void" ++ ">" := by decide
  rw [ambientPlugin]
  refine readsAs_lines (List.forall_mem_cons.2 ⟨?_, List.forall_mem_cons.2 ⟨?_,
    List.forall_mem_cons.2 ⟨?_, List.forall_mem_singleton.2 ?_⟩⟩⟩)
  · refine readsAs_skipped ([.word "export", .space, .word "declare", .space, .word "const", .space,
      .word "routes", .sign ':', .space, .word "Record", .sign '<', .word "string",
      .sign ',', .space,
      .sign '\x7b', .space, .word "path", .sign ':', .space, .word "string", .sign ';', .space,
      .word "method", .sign ':', .space, .word "string", .space, .sign '\x7d', .sign '>',
      .sign ';'])
      (by decide) ?_ (Nat.succ_pos _) fun _ => rfl
    simp +decide [Phrase, Fragment.Fits]
  · refine readsAs_promising [.word "options", .sign ':', .space, .word s.optionsType] ?_ rfl
      ?_ (fun _ => rfl) true
    · simp [Fragment.chars]
    · simp +decide [Phrase, Fragment.Fits, Fragment.isOpen, functionFragments, promiseFragments,
        hfactory, hoptions, hclient]
  · refine readsAs_promising [.word "app", .sign ':', .space, .word "unknown", .sign ',', .space,
      .word "options", .sign ':', .space, .word s.optionsType] ?_ hvoid ?_ (fun _ => rfl) false
    · simp [Fragment.chars]
    · simp +decide [Phrase, Fragment.Fits, Fragment.isOpen, functionFragments, promiseFragments,
        hplugin, hoptions]
  · refine readsAs_skipped [.word "export", .space, .word "default", .space, .word s.plugin,
      .sign ';'] ?_ ?_ (Nat.succ_pos _) fun _ => rfl
    · simp [Fragment.chars]
    · simp +decide [Phrase, Fragment.Fits, Fragment.isOpen, hplugin]

end TypedClient.Emit
