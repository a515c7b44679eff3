import TypedClient.Emit.Declarations
import TypedClient.Proofs.Dictionaries
import TypedClient.Proofs.Emit.OperationTypes
import TypedClient.Proofs.Lists

/-!
# Names and types of a surface

All names that a surface gives can stand where they are written (`readable_surface`), and the names
of its types differ from each other and from those of the schema (`nodup_surface`).  Operations may
have any ids for that, and clients any names.
-/

set_option autoImplicit false

namespace TypedClient.Emit

open TypedClient.Api TypedClient.Declaration TypedClient.Naming TypedClient.Types

/-! ## Words -/

/-- The text has the shape of an identifier. -/
def IsWord (text : String) : Prop := isIdentifierShaped text.toList = true

theorem IsWord.append {text ending : String} (h : IsWord text)
    (hending : ∀ c ∈ ending.toList, isIdentifierPart c = true) : IsWord (text ++ ending) := by
  rw [IsWord] at h ⊢
  rw [String.toList_append]
  cases htext : text.toList with
  | nil =>
    rw [htext] at h
    cases h
  | cons first rest =>
    rw [htext, isIdentifierShaped, Bool.and_eq_true, List.all_eq_true] at h
    rw [List.cons_append, isIdentifierShaped, Bool.and_eq_true, List.all_eq_true]
    exact ⟨h.1, fun c hc => (List.mem_append.1 hc).elim (h.2 c) (hending c)⟩

theorem isWord_of_isDeclaredName {name : String} (h : IsDeclaredName name) : IsWord name :=
  h.isTypeName.shaped

theorem isWord_of_isIdentifier {text : String} (h : isIdentifier text = true) : IsWord text := by
  rw [isIdentifier, Bool.and_eq_true] at h
  exact h.1

/-- Behind its first character an identifier may be any that goes on one. -/
theorem isIdentifierPart_of_isDeclaredName {name : String} (h : IsDeclaredName name) :
    ∀ c ∈ name.toList, isIdentifierPart c = true := by
  obtain ⟨first, rest, hname, hupper, hrest⟩ := h
  rw [hname]
  have halpha : first.isAlpha = true := Bool.or_eq_true_iff.2 (.inl hupper)
  refine List.forall_mem_cons.2 ⟨?_, hrest⟩
  simp [isIdentifierPart, Char.isAlphanum, halpha]

theorem isWord_valueName (raw : String) : IsWord (valueName raw) := by
  rw [valueName]
  split
  · exact isWord_of_isIdentifier ‹_›
  · dsimp only
    split
    · exact isWord_of_isIdentifier ‹_›
    · have hmark : IsWord "_" := by
        rw [IsWord]
        decide
      refine hmark.append fun c hc => ?_
      rw [plainPart, String.toList_ofList] at hc
      have hplain := List.of_mem_filter hc
      rw [isIdentifierPart, Bool.or_eq_true]
      exact .inl hplain

theorem isWord_freeName (taken : List String) {candidate : String} (h : IsWord candidate) :
    IsWord (freeName taken candidate) := by
  rcases exists_freeName taken candidate with heq | ⟨n, heq⟩
  · rwa [heq]
  · rw [heq]
    exact h.append (isIdentifierPart_of_mem_toString n)

/-! ## Surfaces -/

/-- The names of a surface can stand where they are written, and the declarations of its operations
can be read. -/
structure Surface.Readable (s : Surface) : Prop where
  /-- The types of operations can be read. -/
  types : ∀ e ∈ s.entries, e.types.Readable
  /-- The names of functions are words. -/
  functions : ∀ e ∈ s.entries, IsWord e.function
  /-- The name of the type of clients can be declared. -/
  clientType : IsDeclaredName s.clientType
  /-- So can the name of the type of options. -/
  optionsType : IsDeclaredName s.optionsType
  /-- The name of the function that makes a client is a word. -/
  factory : IsWord s.factory
  /-- So is the name of the plugin function. -/
  plugin : IsWord s.plugin

/-- Names the types of a surface: that of clients, that of options and those of operations. -/
def surfaceTypes (api : Definition) (options : Options) :
    Claims (String × String × List OperationTypes) := do
  let clientType ← claimName (typeName options.name ++ "Client")
  let optionsType ← claimName (typeName options.name ++ "ClientOptions")
  let types ← entryTypes api.types options api.operations
  return (clientType, optionsType, types)

variable {api : Definition} {options : Options}

/-- The names that the declarations of operations declare. -/
def Surface.operationNames (s : Surface) : List String :=
  s.entries.flatMap fun e => e.types.statements.map Statement.name

/-- The surface has names of its own for its types, and something is known of the types of each
operation. -/
structure Surface.Names (R : Operation → OperationTypes → Prop) (api : Definition)
    (options : Options) (s : Surface) : Prop where
  /-- The names are different, and none is that of a type of the schema. -/
  claimed : ∃ after, Claimed (Dict.keys api.types.names)
    (s.clientType :: s.optionsType :: s.operationNames) after
  /-- There is an entry for each operation. -/
  entries : List.Forall₂ (fun op (e : Entry) => e.operation = op ∧ IsWord e.function ∧ R op e.types)
    api.operations s.entries
  /-- The type of clients is named after the client. -/
  clientType : IsDeclaredName s.clientType ∧
    IsVariant (typeName options.name ++ "Client") s.clientType
  /-- So is the type of options. -/
  optionsType : IsDeclaredName s.optionsType ∧
    IsVariant (typeName options.name ++ "ClientOptions") s.optionsType

section Naming

variable {R : Operation → OperationTypes → Prop}

theorem surfaceTypes_claiming
    (h : ∀ op ∈ api.operations,
      Claiming (fun names t => names = t.statements.map Statement.name ∧ R op t)
      (operationTypes api.types options op)) :
    Claiming (fun names result => names = result.1 :: result.2.1 ::
          result.2.2.flatMap (fun t => t.statements.map Statement.name) ∧
        (IsDeclaredName result.1 ∧ IsVariant (typeName options.name ++ "Client") result.1) ∧
        (IsDeclaredName result.2.1 ∧
          IsVariant (typeName options.name ++ "ClientOptions") result.2.1) ∧
        List.Forall₂ R api.operations result.2.2)
      (surfaceTypes api options) := by
  have hbase := isDeclaredName_typeName options.name
  rw [surfaceTypes]
  refine (claiming_declaredName (hbase.append (List.all_eq_true.1 (by decide)))).bind
    fun first clientType ⟨hfirst, hclient⟩ => ?_
  refine (claiming_declaredName (hbase.append (List.all_eq_true.1 (by decide)))).bind
    fun second optionsType ⟨hsecond, hoptions⟩ => ?_
  refine (Claiming.forall₂ h).bind
    fun others types ⟨hothers, htypes⟩ => claiming_pure ⟨?_, hclient, hoptions, htypes⟩
  rw [hfirst, hsecond, hothers, List.append_nil]
  rfl

theorem functionNames_claiming (operations : List Operation) :
    Claiming (fun _ functions => List.Forall₂ (fun _ name => IsWord name) operations functions)
      (functionNames operations) := by
  have hfunction : ∀ op ∈ operations, Claiming (fun names name => names = [name] ∧ IsWord name)
      (claimName (valueName op.id)) := by
    intro op _
    refine (claiming_claimName _).mono fun names name ⟨hnames, taken, hname⟩ => ⟨hnames, ?_⟩
    rw [hname]
    exact isWord_freeName taken (isWord_valueName op.id)
  exact (Claiming.forall₂ hfunction).mono fun _ _ h => h.2

/-- The entries are made of the operations, their functions and their types. -/
theorem forall₂_entries {operations : List Operation} {functions : List String}
    {types : List OperationTypes} (call : Operation → Call)
    (hfunctions : List.Forall₂ (fun _ name => IsWord name) operations functions)
    (htypes : List.Forall₂ R operations types) :
    List.Forall₂ (fun op (e : Entry) => e.operation = op ∧ IsWord e.function ∧ R op e.types)
        operations
        ((operations.zip (functions.zip types)).map fun x => ⟨x.1, x.2.1, x.2.2, call x.1⟩) ∧
      ((operations.zip (functions.zip types)).map fun x => x.2.2) = types := by
  induction htypes generalizing functions with
  | nil =>
    cases hfunctions
    exact ⟨.nil, rfl⟩
  | cons htype _ ih =>
    cases hfunctions with
    | cons hfunction hfunctions =>
      obtain ⟨hentries, hsame⟩ := ih hfunctions
      exact ⟨.cons ⟨rfl, hfunction, htype⟩ hentries, congrArg _ hsame⟩

/-- **The types of a surface have names of their own**, whatever operations and clients are
called. -/
theorem names_surface
    (h : ∀ op ∈ api.operations,
      Claiming (fun names t => names = t.statements.map Statement.name ∧ R op t)
      (operationTypes api.types options op)) :
    (Surface.of api options).Names R api options := by
  obtain ⟨names, hclaimed, hnames, hclient, hoptions, htypes⟩ :=
    surfaceTypes_claiming h (Dict.keys api.types.names)
  obtain ⟨_, -, hfunctions⟩ := functionNames_claiming api.operations
    ((Surface.of api options).factory :: (Surface.of api options).plugin :: moduleNames)
  obtain ⟨hentries, hsame⟩ :=
    forall₂_entries (callOf api.types options.fullRequest) hfunctions htypes
  have hoperations : (Surface.of api options).operationNames =
      (surfaceTypes api options (Dict.keys api.types.names)).1.2.2.flatMap
        fun t => t.statements.map Statement.name := by
    rw [← hsame, List.flatMap_map]
    exact List.flatMap_map ..
  have hsurface : names = (Surface.of api options).clientType ::
      (Surface.of api options).optionsType :: (Surface.of api options).operationNames := by
    rw [hnames, hoperations]
    rfl
  exact ⟨⟨_, hsurface ▸ hclaimed⟩, hentries, hclient, hoptions⟩

end Naming

theorem isWord_factory (api : Definition) (options : Options) :
    IsWord (Surface.of api options).factory := by
  have hgenerate : IsWord "generate" := by
    rw [IsWord]
    decide
  exact (hgenerate.append (isIdentifierPart_of_isDeclaredName
    (isDeclaredName_typeName options.name))).append (List.all_eq_true.1 (by decide))

theorem isWord_plugin (api : Definition) (options : Options) :
    IsWord (Surface.of api options).plugin :=
  (isWord_valueName options.name).append (List.all_eq_true.1 (by decide))

/-- **The names of a surface can stand where they are written**, and the declarations of its
operations can be read. -/
theorem readable_surface (hg : Declarable api.types)
    (hcodes : ∀ op ∈ api.operations, op.CodesFit) : (Surface.of api options).Readable := by
  have hnames : (Surface.of api options).Names (fun _ t => t.Readable) api options :=
    names_surface fun op hop => operationTypes_claiming hg (hcodes op hop)
  have hentries := forall₂_right hnames.entries fun _ _ _ h => h.2
  exact ⟨fun e he => (hentries e he).2, fun e he => (hentries e he).1, hnames.clientType.1,
    hnames.optionsType.1, isWord_factory api options, isWord_plugin api options⟩

/-- **The names of types differ** from each other and from those of the schema. -/
theorem Surface.Names.nodup {R : Operation → OperationTypes → Prop} {s : Surface}
    (h : s.Names R api options) (hordered : Dict.Ordered api.types.names) :
    (Dict.keys api.types.names ++ s.operationNames ++ [s.clientType] ++ [s.optionsType]).Nodup := by
  obtain ⟨after, hclaimed⟩ := h.claimed
  have hperm : (s.operationNames ++ [s.clientType] ++ [s.optionsType]).Perm
      (s.clientType :: s.optionsType :: s.operationNames) := by
    rw [List.append_assoc]
    exact List.perm_append_comm
  rw [List.append_assoc, List.append_assoc, ← List.append_assoc s.operationNames]
  refine List.nodup_append.2 ⟨hordered.nodup, hperm.nodup_iff.2 hclaimed.nodup, ?_⟩
  rintro name hname other hother rfl
  exact hclaimed.free name (hperm.mem_iff.1 hother) hname

/-- The names of types that the reader keeps differ. -/
theorem nodup_surface (hg : Declarable api.types)
    (hcodes : ∀ op ∈ api.operations, op.CodesFit) :
    let s := Surface.of api options
    (Dict.keys api.types.names ++ s.operationNames ++ [s.clientType]).Nodup := by
  have hnames : (Surface.of api options).Names (fun _ t => t.Readable) api options :=
    names_surface fun op hop => operationTypes_claiming hg (hcodes op hop)
  exact (List.sublist_append_left _ _).nodup (hnames.nodup hg.grown.ordered)

end TypedClient.Emit
