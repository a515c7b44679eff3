import TypedClient.Proofs.BuiltGraphs
import TypedClient.Proofs.Emit.Lines
import TypedClient.Proofs.Emit.RoundTrip
import TypedClient.Proofs.TypeNames

/-!
# The names of declared types

Every type that is declared for a definition has a name of its own: the types of the schema, those
of requests and responses, that of clients and that of their options.

* `declaredTypes` reads the names off the lines of a text, and `Declares` says which names lines of
  code declare.  Lines that hold texts of the document start with white space or with a comment, so
  no text looks like a declaration;
* `Nameable.declaredTypes_below` says that the declarations of a surface declare
  `Surface.typeNames`;
* `typesApart_of_normalize` says of all artifacts that these names are told apart.
-/

set_option autoImplicit false

namespace TypedClient.Emit

open TypedClient.Api TypedClient.Declaration TypedClient.Naming TypedClient.Text TypedClient.Types

/-- The name under which a line declares a type: what follows the words of a declaration, up to the
next space. -/
def declaredType? (line : List Char) : Option String :=
  ["export interface ", "export type "].findSome? fun words =>
    if words.toList.isPrefixOf line then
      some (String.ofList ((line.drop words.toList.length).takeWhile (· != ' ')))
    else none

/-- The names of the types that a text declares, line by line. -/
def declaredTypes (text : String) : List String := (lines text.toList).filterMap declaredType?

/-! ## Lines that declare -/

/-- The lines have no line feeds in them, and they declare types under these names. -/
structure Declares (code : Code) (names : List String) : Prop where
  /-- No line has a line feed in it. -/
  oneLine : ∀ line ∈ code, OneLine line
  /-- These are the names. -/
  names_eq : (code.filterMap fun line => declaredType? (trimEnd line.toList)) = names

variable {code more : Code} {names others : List String} {name : String}

theorem Declares.nil : Declares [] [] := ⟨List.forall_mem_nil _, rfl⟩

theorem Declares.append (h : Declares code names) (h' : Declares more others) :
    Declares (code ++ more) (names ++ others) :=
  ⟨List.forall_mem_append.2 ⟨h.oneLine, h'.oneLine⟩, by
    rw [List.filterMap_append, h.names_eq, h'.names_eq]⟩

theorem Declares.flatMap {α : Type} {f : α → Code} {g : α → List String} {xs : List α}
    (h : ∀ x ∈ xs, Declares (f x) (g x)) : Declares (xs.flatMap f) (xs.flatMap g) := by
  induction xs with
  | nil => exact .nil
  | cons x xs ih =>
    obtain ⟨hx, hxs⟩ := List.forall_mem_cons.1 h
    exact hx.append (ih hxs)

theorem Declares.flatMap_nil {α : Type} {f : α → Code} {xs : List α}
    (h : ∀ x ∈ xs, Declares (f x) []) : Declares (xs.flatMap f) [] := by
  have hall := Declares.flatMap h
  rwa [List.flatMap_eq_nil_iff.2 fun _ _ => rfl] at hall

/-- **Tidy code declares the types that its lines declare.** -/
theorem Declares.declaredTypes_tidy (h : Declares code names) :
    declaredTypes (textOf (tidy code)) = names := by
  rw [declaredTypes, filterMap_lines_tidy (f := declaredType?) rfl h.oneLine]
  exact h.names_eq

/-- A declaration starts with a letter. -/
theorem declaredType?_eq_none {cs : List Char} (h : cs.head? ≠ some 'e') :
    declaredType? cs = none := by
  have hwords : ∀ words ∈ ["export interface ", "export type "], words.toList.head? = some 'e' := by
    decide
  refine List.findSome?_eq_none_iff.2 fun words hmem => if_neg fun hprefix => ?_
  obtain ⟨rest, rfl⟩ := List.isPrefixOf_iff_prefix.1 hprefix
  rw [List.head?_append, hwords words hmem] at h
  exact h rfl

/-- What is declared is what stands between the words of the declaration and the next space. -/
theorem declaredType?_append (hname : IsDeclaredName name) {words : String}
    (hwords : words ∈ ["export interface ", "export type "]) (rest : List Char) :
    declaredType? (words.toList ++ (name.toList ++ ' ' :: rest)) = some name := by
  have htake : (name.toList ++ ' ' :: rest).takeWhile (· != ' ') = name.toList := by
    rw [List.takeWhile_append_of_pos, List.takeWhile_cons_of_neg (by decide), List.append_nil]
    rintro c hc
    refine bne_iff_ne.2 ?_
    rintro rfl
    exact absurd (isIdentifierPart_of_isDeclaredName hname _ hc) (by decide)
  have hstarts (first more : List Char) : first.isPrefixOf (first ++ more) = true :=
    List.isPrefixOf_iff_prefix.2 (List.prefix_append _ _)
  simp only [List.mem_cons, List.not_mem_nil, or_false] at hwords
  rcases hwords with rfl | rfl
  · rw [declaredType?, List.findSome?_cons, if_pos (hstarts _ _), List.drop_left, htake,
      String.ofList_toList]
  · have hother : "export interface ".toList.isPrefixOf ("export type ".toList ++
        (name.toList ++ ' ' :: rest)) = false := rfl
    rw [declaredType?, List.findSome?_cons, hother, List.findSome?_cons, if_pos (hstarts _ _),
      List.drop_left, htake, String.ofList_toList]
    rfl

/-- Lines that start with anything but a letter declare nothing. -/
theorem declares_of_head? (hone : ∀ line ∈ code, OneLine line)
    (hhead : ∀ line ∈ code, line.toList.head? ≠ some 'e') : Declares code [] := by
  refine ⟨hone,
    List.filterMap_eq_nil_iff.2 fun line hline => declaredType?_eq_none fun htrimmed => ?_⟩
  obtain ⟨l, hl, -⟩ := trimmed_trimEnd line.toList
  refine hhead line hline ?_
  rw [hl, List.head?_append, htrimmed]
  rfl

theorem declares_blank : Declares [""] [] :=
  declares_of_head? (by decide) (by decide)

/-- A line that does not end in white space declares what it says. -/
theorem declares_line {line : String} (cs : List Char) {mark : Char}
    (hline : line.toList = cs ++ [mark]) (hmark : isBlank mark = false) (hone : '\n' ∉ cs)
    (hnames : (declaredType? (cs ++ [mark])).toList = names) : Declares [line] names := by
  have hnewline : '\n' ≠ mark := by
    rintro rfl
    rw [isBlank_newline] at hmark
    cases hmark
  refine ⟨List.forall_mem_singleton.2 ?_, ?_⟩
  · rw [OneLine, hline]
    simp [hone, hnewline]
  · rw [← hnames, List.filterMap_cons, List.filterMap_nil, hline, trimEnd_append_of_not_blank hmark]
    cases declaredType? (cs ++ [mark]) <;> rfl

theorem isBlank_semicolon : isBlank ';' = false := (isBlank_of_lt (by decide)).trans rfl

theorem isBlank_closingBrace : isBlank '\x7d' = false := (isBlank_of_lt (by decide)).trans rfl

theorem isBlank_openingBrace : isBlank '\x7b' = false := (isBlank_of_lt (by decide)).trans rfl

/-! ## Declarations -/

/-- Lines of members declare nothing. -/
theorem declares_memberLines {members : List String} (h : ∀ member ∈ members, OneLine member) :
    Declares (members.map memberLine) [] := by
  refine declares_of_head? (List.forall_mem_map.2 fun member hmember => ?_)
    (List.forall_mem_map.2 fun member _ heq => ?_)
  · rw [memberLine, oneLine_append, oneLine_append]
    exact ⟨⟨by decide, h member hmember⟩, by decide⟩
  · rw [memberLine, String.toList_append, String.toList_append, List.append_assoc,
      List.head?_append] at heq
    cases heq

theorem declares_docComment (text : Option String) {indent : String}
    (hindent : indent = "" ∨ indent = "  ") : Declares (docComment text indent) [] := by
  refine declares_of_head? (fun line hline => ?_) fun line hline heq => ?_
  all_goals obtain ⟨mark, rest, hmark, hchars, hrest⟩ := mem_docComment hline
  · have hnewline : '\n' ≠ mark := fun heq => absurd (heq ▸ hmark) (by decide)
    rw [OneLine, hchars]
    rcases hindent with rfl | rfl <;> simp [hnewline, hrest]
  · rw [hchars] at heq
    rcases hindent with rfl | rfl
    · rw [Option.some.inj heq] at hmark
      exact absurd hmark (by decide)
    · cases heq

/-- An interface declares its name. -/
theorem declares_interfaceLines (hname : IsDeclaredName name) (hmembers : Declares code []) :
    Declares (interfaceLines name code) [name] := by
  have hone : '\n' ∉ name.toList := hname.oneLine
  have hhead (rest : List Char) :
      declaredType? ("export interface ".toList ++ (name.toList ++ ' ' :: rest)) = some name :=
    declaredType?_append hname (by decide) rest
  rw [interfaceLines]
  split
  · refine declares_line ("export interface ".toList ++ (name.toList ++ ' ' :: ['\x7b'])) (by simp)
      isBlank_closingBrace (by simp [hone]) ?_
    rw [List.append_assoc, List.append_assoc]
    exact congrArg Option.toList (hhead _)
  · have hopen : Declares ["export interface " ++ name ++ " \x7b"] [name] := by
      refine declares_line ("export interface ".toList ++ (name.toList ++ [' '])) (by simp)
        isBlank_openingBrace (by simp [hone]) ?_
      rw [List.append_assoc, List.append_assoc]
      exact congrArg Option.toList (hhead _)
    exact (hopen.append hmembers).append (declares_of_head? (by decide) (by decide))

/-- A declaration declares its name. -/
theorem declares_statement {s : Statement} (h : s.Tame) : Declares s.lines [s.name] := by
  cases s with
  | interface name members =>
    exact declares_interfaceLines h.name
      (declares_memberLines (oneLine_memberTexts fun m hm => (h.types m hm).oneLine_text))
  | typeAlias name type =>
    have hone : '\n' ∉ name.toList := h.name.oneLine
    have htype : '\n' ∉ type.text.toList := TypeExpr.Tame.oneLine_text h.types
    refine declares_line ("export type ".toList ++ (name.toList ++ ' ' :: ("= ".toList ++
      type.text.toList))) (by simp) isBlank_semicolon (by simp [hone, htype]) ?_
    rw [List.append_assoc, List.append_assoc]
    exact congrArg Option.toList (declaredType?_append h.name (by decide) _)

/-- The declaration of a named type declares its name, with comments for the type and its fields. -/
theorem declares_declaration {g : TypeGraph} {style : Style} {id : TypeId} {lines : List String}
    (hnames : ∀ id name, g.nameOf id = some name → IsDeclaredName name)
    (hname : g.nameOf id = some name) (hlines : declaration? g style id = some lines) :
    Declares lines [name] := by
  obtain ⟨s, hs, rfl⟩ := Option.map_eq_some_iff.1 hlines
  have htame := tame_statement hnames hs
  obtain rfl : s.name = name := (type_of_statement? hs).1.symm.trans hname |> Option.some.inj
  refine (declares_docComment _ (.inl rfl)).append ?_
  split
  · rename_i fields name members hkind
    have hmembers := oneLine_memberTexts fun m hm => (htame.types m hm).oneLine_text
    refine declares_interfaceLines htame.name ?_
    refine .flatMap_nil fun pair hpair => ?_
    exact (declares_docComment _ (.inr rfl)).append (declares_memberLines
      (List.forall_mem_singleton.2 (hmembers pair.2 (List.of_mem_zip hpair).2)))
  · exact declares_statement htame

/-! ## The declarations of a client -/

variable {s : Surface}

theorem IsWord.oneLine {text : String} (h : IsWord text) : OneLine text := by
  rw [IsWord] at h
  rw [OneLine]
  cases htext : text.toList with
  | nil => exact List.not_mem_nil
  | cons first rest =>
    rw [htext, isIdentifierShaped, Bool.and_eq_true, List.all_eq_true] at h
    rw [List.mem_cons, not_or]
    constructor
    · rintro rfl
      exact absurd h.1 (by decide)
    · exact fun hmem => absurd (h.2 _ hmem) (by decide)

theorem declares_clientInterface (hclient : IsDeclaredName s.clientType)
    (htypes : ∀ e ∈ s.entries, IsDeclaredName e.types.request ∧ IsDeclaredName e.types.responses) :
    Declares (clientInterface s) [s.clientType] := by
  have hmethod {e : Entry} (he : e ∈ s.entries) :
      OneLine (Naming.propertyKey e.operation.id ++ "(" ++ e.requestName ++ ": " ++
        e.types.request ++ "): " ++ (if s.graphql then "Promise<unknown>" else e.returnType)) := by
    have hrequestName : OneLine e.requestName := by
      rw [Entry.requestName]
      split <;> decide
    have hresult : OneLine (if s.graphql then "Promise<unknown>" else e.returnType) := by
      split
      · decide
      · exact oneLine_append.2 ⟨oneLine_append.2 ⟨by decide, (htypes e he).2.oneLine⟩, by decide⟩
    simp only [oneLine_append]
    exact ⟨⟨⟨⟨⟨⟨oneLine_propertyKey _, by decide⟩, hrequestName⟩, by decide⟩,
      (htypes e he).1.oneLine⟩, by decide⟩, hresult⟩
  have hlines := declares_memberLines (List.forall_mem_map.2 fun e he => hmethod he)
  rw [List.map_map] at hlines
  exact declares_interfaceLines hclient hlines

theorem declares_optionsInterface (hoptions : IsDeclaredName s.optionsType) :
    Declares (optionsInterface s) [s.optionsType] := by
  obtain ⟨line, hlines, hline⟩ := optionsInterface_eq s
  rw [hlines]
  refine declares_interfaceLines hoptions
    (.append (declares_memberLines (oneLine_memberTexts ?_)) ?_)
  · decide
  · have hone : OneLine line := by
      rw [OneLine, hline]
      decide
    refine declares_of_head? (List.forall_mem_singleton.2 hone) (List.forall_mem_singleton.2 ?_)
    rw [hline]
    decide

/-- A line that declares what another module defines declares no type. -/
theorem declares_foreign {line : String} (words text : String)
    (hwords : words ∈ ["export declare ", "declare ", "export default "])
    (hline : line = words ++ text ++ ";") (htext : OneLine text) : Declares [line] [] := by
  have hone : OneLine words := (by decide : ∀ words ∈ ["export declare ", "declare ",
    "export default "], OneLine words) words hwords
  have hnone (rest : List Char) : declaredType? (words.toList ++ rest) = none := by
    simp only [List.mem_cons, List.not_mem_nil, or_false] at hwords
    rcases hwords with rfl | rfl | rfl <;> rfl
  refine declares_line (words.toList ++ text.toList) (by rw [hline]; simp) isBlank_semicolon
    (fun hmem => (List.mem_append.1 hmem).elim hone htext) ?_
  rw [List.append_assoc, hnone]
  rfl

theorem declares_declaredFunction {words : String} (name parameter result : String)
    (hwords : words ∈ ["export declare ", "declare "]) (hname : OneLine name)
    (hparameter : OneLine parameter) (hresult : OneLine result) :
    Declares [declaredFunction words name parameter result] [] := by
  refine declares_foreign words
    ("function " ++ name ++ "(" ++ parameter ++ "): " ++ result) ?_ ?_ ?_
  · exact List.mem_append_left ["export default "] hwords
  · simp [declaredFunction, String.append_assoc]
  · simp only [oneLine_append]
    exact ⟨⟨⟨⟨⟨by decide, hname⟩, by decide⟩, hparameter⟩, by decide⟩, hresult⟩

theorem oneLine_graphqlRequestType (htypes : ∀ e ∈ s.entries, IsDeclaredName e.types.request) :
    OneLine s.graphqlRequestType := by
  rcases s.graphqlRequestType_cases with htype | ⟨e, he, htype⟩
  · rw [htype]
    decide
  · rw [htype]
    exact oneLine_append.2 ⟨oneLine_append.2 ⟨(htypes e he).oneLine, by decide⟩, by decide⟩

theorem declares_ambientFrontend
    (htypes : ∀ e ∈ s.entries, IsDeclaredName e.types.request ∧ IsDeclaredName e.types.responses)
    (hfunctions : ∀ e ∈ s.entries, IsWord e.function) : Declares (ambientFrontend s) [] := by
  have hexport : "export declare " ∈ ["export declare ", "declare "] := List.mem_cons_self
  rw [ambientFrontend]
  have hbase := declares_declaredFunction "setBaseUrl" "url: string" "void" hexport (by decide)
    (by decide) (by decide)
  have hheaders := declares_declaredFunction "setDefaultHeaders"
    "headers: Record<string, string>" "void" hexport (by decide) (by decide) (by decide)
  have hparams := declares_declaredFunction "setDefaultFetchParams" "params: RequestInit" "void"
    hexport (by decide) (by decide) (by decide)
  change Declares _ ([] ++ [])
  refine .append (hbase.append (hheaders.append hparams)) ?_
  split
  · exact declares_declaredFunction _ _ _ hexport (by decide)
      (oneLine_append.2 ⟨by decide, oneLine_graphqlRequestType fun e he => (htypes e he).1⟩)
      (by decide)
  · rw [List.map_eq_flatMap]
    refine .flatMap_nil fun e he =>
      declares_declaredFunction _ _ _ hexport (hfunctions e he).oneLine ?_ ?_
    · rw [Entry.requestName]
      simp only [oneLine_append]
      refine ⟨⟨?_, by decide⟩, (htypes e he).1.oneLine⟩
      split <;> decide
    · exact oneLine_append.2 ⟨oneLine_append.2 ⟨by decide, (htypes e he).2.oneLine⟩, by decide⟩

theorem declares_ambientPlugin (hclient : IsDeclaredName s.clientType)
    (hoptions : IsDeclaredName s.optionsType) (hfactory : IsWord s.factory)
    (hplugin : IsWord s.plugin) :
    Declares (ambientPlugin s) [] := by
  have hmem : "export declare " ∈ ["export declare ", "declare "] ∧
      "declare " ∈ ["export declare ", "declare "] := by decide
  have hroutes := declares_foreign "export declare " ("const routes: " ++ routesType)
    (by decide) rfl (by decide)
  have hmake := declares_declaredFunction s.factory ("options: " ++ s.optionsType)
    ("Promise<" ++ s.clientType ++ ">") hmem.1 hfactory.oneLine
    (oneLine_append.2 ⟨by decide, hoptions.oneLine⟩)
    (oneLine_append.2 ⟨oneLine_append.2 ⟨by decide, hclient.oneLine⟩, by decide⟩)
  have hadd := declares_declaredFunction s.plugin ("app: unknown, options: " ++ s.optionsType)
    "Promise<void>" hmem.2 hplugin.oneLine
    (oneLine_append.2 ⟨by decide, hoptions.oneLine⟩) (by decide)
  have hdefault := declares_foreign "export default " s.plugin (by decide) rfl
    hplugin.oneLine
  exact hroutes.append (hmake.append (hadd.append hdefault))

/-! ## Files of declarations -/

variable {api : Definition} {options : Options}

/-- The types of the schema are declared under their names. -/
theorem declares_types {names : Dict TypeId} {g : TypeGraph} {style : Style}
    (hnames : ∀ id name, g.nameOf id = some name → IsDeclaredName name)
    (hindex : ∀ entry ∈ names, g.nameOf entry.2 = some entry.1) :
    Declares ((names.filterMap fun (_, id) => declaration? g style id).flatMap ("" :: ·))
      (Dict.keys names) := by
  induction names with
  | nil => exact .nil
  | cons entry names ih =>
    obtain ⟨hentry, hrest⟩ := List.forall_mem_cons.1 hindex
    obtain ⟨lines, hlines⟩ : ∃ lines, declaration? g style entry.2 = some lines := by
      rw [declaration?, statement?, hentry]
      exact ⟨_, rfl⟩
    have hcons : (entry :: names).filterMap (fun (_, id) => declaration? g style id)
        = lines :: names.filterMap fun (_, id) => declaration? g style id :=
      List.filterMap_cons_some hlines
    rw [hcons]
    exact (declares_blank.append (declares_declaration hnames hentry hlines)).append (ih hrest)

/-- The names of the types that are declared for a definition. -/
structure TypeNames where
  /-- The names of the types of the schema. -/
  schema : List String
  /-- The names of the types of each operation. -/
  operations : List (List String)
  /-- The name of the type of clients. -/
  client : String
  /-- The name of the type of options, if there is one. -/
  options : Option String

/-- All names, in the order of the declarations. -/
def TypeNames.all (n : TypeNames) : List String :=
  n.schema ++ n.operations.flatten ++ [n.client] ++ n.options.toList

/-- The names of the types that a surface declares; options are declared beside a plugin. -/
def Surface.typeNames (s : Surface) (api : Definition) (flavor : Flavor) : TypeNames where
  schema := Dict.keys api.types.names
  operations := s.entries.map fun e => e.types.statements.map Statement.name
  client := s.clientType
  options := if flavor = .fullNodePlugin then some s.optionsType else none

/-- The names of a graph are those of its nodes, and can be declared. -/
structure Nameable (g : TypeGraph) : Prop where
  /-- The names of nodes can be declared. -/
  nodes : ∀ id name, g.nameOf id = some name → IsDeclaredName name
  /-- The index leads to the nodes. -/
  index : ∀ entry ∈ g.names, g.nameOf entry.2 = some entry.1
  /-- No name is in the index twice. -/
  ordered : Dict.Ordered g.names

namespace Nameable

variable (h : Nameable api.types)

include h

theorem surface (options : Options) :
    (Surface.of api options).Names (fun op t => t.All TypeExpr.Tame op) api options :=
  names_surface fun op _ => operationTypes_tame h.nodes op

theorem entries (options : Options) : ∀ e ∈ (Surface.of api options).entries,
    (IsDeclaredName e.types.request ∧ IsDeclaredName e.types.responses) ∧ IsWord e.function ∧
      ∀ s ∈ e.types.statements, s.Tame :=
  forall₂_right (h.surface options).entries fun _ _ _ he =>
    ⟨⟨he.2.2.request, he.2.2.responses⟩, he.2.1,
      fun s hs => ⟨(he.2.2.statements s hs).1, (he.2.2.statements s hs).2⟩⟩

/-- Declarations declare these names, below any first line and above any other code. -/
theorem declaredTypes_below {header : String} {ambient : Code} (flavor : Flavor)
    (hheader : Declares [header] []) (hambient : Declares ambient []) :
    declaredTypes (textOf (declarationsBelow header (Surface.of api options) flavor ambient)) =
      ((Surface.of api options).typeNames api flavor).all := by
  have htypes : Declares ((Surface.of api options).types.flatMap ("" :: ·))
      (Dict.keys api.types.names) := declares_types h.nodes h.index
  have hentries := h.entries options
  have hclient :=
    declares_clientInterface (h.surface options).clientType.1 fun e he => (hentries e he).1
  have hoptions := declares_optionsInterface (h.surface options).optionsType.1
  generalize Surface.of api options = s at htypes hentries hclient hoptions ⊢
  have hoperations : Declares
      ((s.entries.flatMap fun e => e.types.statements.map Statement.lines).flatMap ("" :: ·))
      s.operationNames := by
    rw [List.flatMap_assoc, Surface.operationNames]
    refine .flatMap fun e he => ?_
    rw [List.flatMap_map, List.map_eq_flatMap]
    exact .flatMap fun t ht => declares_blank.append (declares_statement ((hentries e he).2.2 t ht))
  have hplugin :
      Declares (if flavor = .fullNodePlugin then ["" :: optionsInterface s] else []).flatten
      (if flavor = .fullNodePlugin then some s.optionsType else none).toList := by
    split
    · rw [List.flatten_singleton]
      exact declares_blank.append hoptions
    · exact .nil
  have hall := (((((hheader.append (htypes.append hoperations)).append declares_blank).append
    hclient).append hplugin).append declares_blank).append hambient
  rw [← List.flatMap_append] at hall
  simp only [List.append_nil, List.nil_append] at hall
  rw [TypeNames.all, Surface.typeNames, ← List.flatMap_def]
  exact hall.declaredTypes_tidy

end Nameable

/-! ## Artifacts -/

variable {document : Json} {kind : Option SchemaKind}

/-- The graph of a document has names that can be declared. -/
theorem nameable_of_normalize (h : normalize document kind = .ok api) : Nameable api.types := by
  obtain ⟨hgrown, -⟩ := grown_of_normalize h
  refine ⟨fun id name hname => ?_, fun entry => nameOf_of_mem_names hgrown, hgrown.ordered⟩
  obtain ⟨source, taken, -, rfl⟩ := (labelled_of_normalize h).source name id
    (hgrown.toSound.lookup_of_nameOf (TypeGraph.lt_of_nameOf hname) hname)
  exact isDeclaredName_freeName taken (isDeclaredName_typeName source)

/-- The first line of a file declares nothing. -/
theorem declares_headerLine (api : Definition) : Declares [headerLine api] [] := by
  refine declares_of_head? (List.forall_mem_singleton.2 ?_) (List.forall_mem_singleton.2 ?_)
  · rw [OneLine, toList_headerLine, List.mem_cons, List.mem_cons, not_or, not_or]
    exact ⟨by decide, by decide, newline_notMem_spaced _⟩
  · rw [toList_headerLine]
    exact fun h => absurd (Option.some.inj h) (by decide)

theorem Nameable.declares_ambient (h : Nameable api.types) (flavor : Flavor) :
    Declares (ambient (Surface.of api options) flavor) [] := by
  have hentries := h.entries options
  cases flavor with
  | typesOnly => exact .nil
  | frontend =>
    exact declares_ambientFrontend (fun e he => (hentries e he).1) fun e he => (hentries e he).2.1
  | fullNodePlugin =>
    exact declares_ambientPlugin (h.surface options).clientType.1 (h.surface options).optionsType.1
      (isWord_factory api options) (isWord_plugin api options)

/-- The text holds the declarations of an artifact: it is a whole file of declarations, or a part of
a TypeScript module.  A JavaScript module has none. -/
def HoldsDeclarations (a : Artifact) (text : String) : Prop :=
  match a.kind with
  | .declarations => a.contents = text
  | .combined => ∃ first last, a.contents = first ++ text ++ last
  | .bindings => False

/-- The code has other code in it, and something behind that. -/
def Around (inner code : Code) : Prop :=
  ∃ before after, after ≠ [] ∧ code = before ++ inner ++ after

theorem around_append (before inner : Code) {after : Code} (hafter : after ≠ []) :
    Around inner (before ++ inner ++ after) := ⟨before, after, hafter, rfl⟩

theorem Around.append {inner : Code} (h : Around inner code) (more : Code) :
    Around inner (code ++ more) := by
  obtain ⟨before, after, hafter, rfl⟩ := h
  exact ⟨before, after ++ more, List.append_ne_nil_of_left_ne_nil hafter _, List.append_assoc ..⟩

/-- A TypeScript module has the declarations in it. -/
theorem exists_around (htypescript : options.typescript = true) (s : Surface) :
    ∃ code, bindings options s = tidy code ∧ Around (declarations s options.flavor) code := by
  have htypes : (if options.dialect.typescript then declarations s options.flavor else []) =
      declarations s options.flavor := if_pos htypescript
  have hblank : [""] ≠ [] := List.cons_ne_nil _ _
  rw [bindings]
  split
  · refine ⟨_, rfl, ?_⟩
    rw [htypes]
    exact .append (.append (.append (.append (.append (.append (.append (around_append _ _ hblank)
      _) _) _) _) _) _) _
  all_goals
    refine ⟨_, rfl, ?_⟩
    rw [htypes]
    exact .append (.append (.append (.append (.append (.append (.append (.append (.append (.append
      (.append (.append (around_append _ _ hblank) _) _) _) _) _) _) _) _) _) _) _) _

theorem exists_textOf_bindings {s : Surface} (htypescript : options.typescript = true) :
    ∃ first last, textOf (bindings options s) =
      first ++ textOf (declarations s options.flavor) ++ last := by
  obtain ⟨code, hcode, before, after, hafter, rfl⟩ := exists_around htypescript s
  rw [hcode, declarations, declarationsBelow]
  exact exists_textOf_tidy hafter

/-- There is one name for each type of the document, and each is made from the name of such a
type. -/
structure NamesEach (document : Json) (api : Definition) (names : List String) : Prop where
  /-- There are as many names as types. -/
  each : ∃ sources : List String, sources.Nodup ∧
    (∀ source, source ∈ sources ↔ NamesType document api source) ∧ sources.length = names.length
  /-- The names are those of types, told apart by numbers. -/
  made : ∀ name ∈ names, ∃ source, NamesType document api source ∧ IsVariant (typeName source) name

/-- The types have the names they should have, and these are told apart. -/
structure TypeNames.Apart (document : Json) (api : Definition) (options : Options) (n : TypeNames) :
    Prop where
  /-- The types of the schema have names. -/
  schema_each : NamesEach document api n.schema
  /-- So have the types of operations. -/
  operations_named : List.Forall₂ NamedAfter api.operations n.operations
  /-- So has the type of clients. -/
  client_named : IsVariant (typeName options.name ++ "Client") n.client
  /-- So has the type of options. -/
  options_named : ∀ name ∈ n.options, IsVariant (typeName options.name ++ "ClientOptions") name
  /-- Options are declared beside a plugin. -/
  options_iff : n.options.isSome ↔ options.flavor = .fullNodePlugin
  /-- No two types have the same name. -/
  nodup : n.all.Nodup
  /-- The names are identifiers. -/
  identifiers : ∀ name ∈ n.all, isIdentifier name = true
  /-- The names consist of ASCII characters. -/
  ascii : ∀ name ∈ n.all, ∀ c ∈ name.toList, c.toNat < 128

theorem namesEach_of_normalize (h : normalize document kind = .ok api) :
    NamesEach document api (Dict.keys api.types.names) := by
  obtain ⟨node, hnode⟩ := oneEach_of_normalize h
  have hsound := (grown_of_normalize h).1.toSound
  refine ⟨hnode.exists_sources hsound, fun name hname => ?_⟩
  obtain ⟨entry, hentry, rfl⟩ := List.mem_map.1 hname
  obtain ⟨source, taken, hsource, hmade⟩ := (labelled_of_normalize h).source _ _
    (hsound.lookup_of_mem hentry)
  exact ⟨source, hsource, taken, hmade⟩

/-- All names of a surface can be declared. -/
theorem Nameable.isDeclaredName (h : Nameable api.types) {flavor : Flavor}
    (hname : name ∈ ((Surface.of api options).typeNames api flavor).all) : IsDeclaredName name := by
  have hnames := h.surface options
  rw [TypeNames.all, Surface.typeNames] at hname
  rcases List.mem_append.1 hname with hname | hname
  · rcases List.mem_append.1 hname with hname | hname
    · rcases List.mem_append.1 hname with hname | hname
      · obtain ⟨entry, hentry, rfl⟩ := List.mem_map.1 hname
        exact h.nodes _ _ (h.index entry hentry)
      · obtain ⟨names, hmem, hname⟩ := List.mem_flatten.1 hname
        obtain ⟨e, he, rfl⟩ := List.mem_map.1 hmem
        obtain ⟨s, hs, rfl⟩ := List.mem_map.1 hname
        exact ((h.entries options e he).2.2 s hs).name
    · rw [List.mem_singleton.1 hname]
      exact hnames.clientType.1
  · rw [Option.mem_toList] at hname
    split at hname
    · rw [← Option.some.inj hname]
      exact hnames.optionsType.1
    · cases hname

/-- The names that a surface declares are told apart. -/
theorem apart_typeNames (h : normalize document kind = .ok api) (options : Options) :
    ((Surface.of api options).typeNames api options.flavor).Apart document api options := by
  have hnameable := nameable_of_normalize h
  have hnames := hnameable.surface options
  refine ⟨namesEach_of_normalize h, ?_, hnames.clientType.2, fun name hname => ?_, ?_, ?_,
    fun name hname => isIdentifier_of_isDeclaredName (hnameable.isDeclaredName hname),
    fun name hname => ascii_of_isDeclaredName (hnameable.isDeclaredName hname)⟩
  · rw [Surface.typeNames, List.forall₂_map_right_iff]
    exact forall₂_mono hnames.entries fun _ _ _ _ he => he.2.2.named
  · rw [Surface.typeNames] at hname
    dsimp only at hname
    split at hname
    · rw [← Option.some.inj hname]
      exact hnames.optionsType.2
    · cases hname
  · rw [Surface.typeNames]
    dsimp only
    split <;> simp [*]
  · have hsub : ((Surface.of api options).typeNames api options.flavor).options.toList.Sublist
        [(Surface.of api options).optionsType] := by
      rw [Surface.typeNames]
      dsimp only
      split
      · exact .refl _
      · exact List.nil_sublist _
    have hall := (hsub.append_left _).nodup (hnames.nodup hnameable.ordered)
    rwa [Surface.operationNames, List.flatMap_def] at hall

/-- **Declared types are told apart.**  Whatever document a definition is made of and whatever is
emitted for it, one artifact at least holds declarations; and in each that does, the types have
names that differ from each other, and are identifiers of ASCII characters: one name for each type
of the document, names for the requests and responses of each operation, and names for the client
and for its options. -/
theorem typesApart_of_normalize (h : normalize document kind = .ok api) (options : Options) :
    (∃ artifact ∈ emit api options, artifact.kind ≠ .bindings) ∧
      ∀ artifact ∈ emit api options, artifact.kind ≠ .bindings →
        ∃ text names, HoldsDeclarations artifact text ∧ declaredTypes text = TypeNames.all names ∧
          names.Apart document api options := by
  have hnameable := nameable_of_normalize h
  have happart := apart_typeNames h options
  refine ⟨exists_mem_emit api options, fun artifact hartifact hkind => ?_⟩
  rcases mem_emit hartifact with ⟨hfile, hcontents⟩ | ⟨hcontents, hmodule⟩
  · refine ⟨artifact.contents, _, ?_, ?_, happart⟩
    · rw [HoldsDeclarations, hfile]
    · rw [hcontents]
      exact hnameable.declaredTypes_below options.flavor (declares_headerLine api)
        (hnameable.declares_ambient options.flavor)
  · split at hmodule
    · rename_i htypescript
      obtain ⟨first, last, htext⟩ :=
        exists_textOf_bindings (s := Surface.of api options) htypescript
      refine ⟨textOf (declarations (Surface.of api options) options.flavor), _, ?_, ?_, happart⟩
      · rw [HoldsDeclarations, hmodule]
        exact ⟨first, last, hcontents.trans htext⟩
      · exact hnameable.declaredTypes_below options.flavor declares_blank .nil
    · exact absurd hmodule hkind

/-- A document whose names are the same when they are made into those of types: two operations
differ in a hyphen, and a component has the name of the client. -/
def collidingDocument : Json := .object [
  ("components", .object [("schemas", .object [
    ("ApiClient", .object [("type", .string "string")])])]),
  ("openapi", .string "3.0.3"),
  ("paths", .object [
    ("/films", .object [("get", .object [
      ("operationId", .string "list-movies"),
      ("responses", .object [("200", .object [("description", .string "all films")])])])]),
    ("/movies", .object [("get", .object [
      ("operationId", .string "listMovies"),
      ("responses", .object [
        ("200", .object [("description", .string "all movies")]),
        ("2XX", .object [("description", .string "some movies")]),
        ("default", .object [("description", .string "no movies")])])])])])]

/-- The definition of the document. -/
def collidingApi : Definition :=
  match normalize collidingDocument none with
  | .ok api => api
  | .error _ => ⟨.openApi, "", "", [], [], .empty, none⟩

theorem normalize_colliding : normalize collidingDocument none = .ok collidingApi := by
  obtain ⟨api, hapi⟩ := exists_eq_ok (m := normalize collidingDocument none) (by decide +kernel)
  rw [collidingApi, hapi]

theorem typesApart_of_normalize_colliding :
    normalize collidingDocument none = .ok collidingApi ∧ ∃ artifact ∈ emit collidingApi { },
      ∃ text names, HoldsDeclarations artifact text ∧ declaredTypes text = TypeNames.all names ∧
        names.Apart collidingDocument collidingApi { } := by
  obtain ⟨⟨artifact, hmem, hkind⟩, hall⟩ := typesApart_of_normalize normalize_colliding { }
  exact ⟨normalize_colliding, artifact, hmem, hall artifact hmem hkind⟩

end TypedClient.Emit
