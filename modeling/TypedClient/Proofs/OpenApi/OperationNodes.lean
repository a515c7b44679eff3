import TypedClient.Proofs.Api.Operation
import TypedClient.Proofs.OpenApi.Mapping
import TypedClient.Proofs.OpenApi.Operations

/-!
# The nodes that operations refer to

Operations are built on a graph that grows, and they refer to nodes that are there.

* `Makes` says this of a step: it leads to a consistent state without losing nodes, and what its
  result refers to are nodes of that;
* `makes_buildOperation` is the case of one operation, step by step as it is built;
* `grown_of_document` says what is known of the definition of a document.
-/

set_option autoImplicit false

namespace TypedClient.OpenApi

open TypedClient.Api TypedClient.Types

/-! ## Steps -/

/-- From the state the step leads to a consistent one with no fewer nodes, if it does not fail, and
what its result refers to are nodes of that. -/
def Makes {α : Type} (schemas : Dict Schema) (mentioned : α → List TypeId) (m : Build α)
    (b : Building) : Prop :=
  Yields (m b) fun result => Consistent schemas [] result.2 ∧ b.graph.size ≤ result.2.graph.size ∧
    ∀ id ∈ mentioned result.1, id < result.2.graph.size

section

variable {α β : Type} {schemas : Dict Schema} {b : Building} {T : α → List TypeId}
  {S : β → List TypeId}

theorem makes_pure (hb : Consistent schemas [] b) {a : α} (h : ∀ id ∈ T a, id < b.graph.size) :
    Makes schemas T (pure a) b := yields_pure ⟨hb, Nat.le_refl _, h⟩

theorem Makes.bind {m : Build α} {f : α → Build β} (h : Makes schemas T m b)
    (hf : ∀ a c, Consistent schemas [] c → b.graph.size ≤ c.graph.size →
      (∀ id ∈ T a, id < c.graph.size) → Makes schemas S (f a) c) :
    Makes schemas S (m >>= f) b := by
  refine Yields.bind h fun result ⟨hc, hle, hlt⟩ => ?_
  refine (hf result.1 result.2 hc hle hlt).mono fun last ⟨hd, hle', hlt'⟩ => ?_
  exact ⟨hd, Nat.le_trans hle hle', hlt'⟩

/-- A computation that does not look at the state. -/
theorem makes_lift (hb : Consistent schemas [] b) (m : Except GenerationError α) :
    Makes schemas (fun _ => []) (monadLift m : Build α) b :=
  ((keeps_lift (I := fun c => c = b) (yields_true m)) b rfl).mono fun result ⟨hstate, _⟩ => by
    rw [hstate]
    exact ⟨hb, Nat.le_refl _, List.forall_mem_nil _⟩

theorem makes_mapM {f : β → Build α} {xs : List β}
    (hf : ∀ x b, Consistent schemas [] b → Makes schemas T (f x) b)
    (hb : Consistent schemas [] b) : Makes schemas (fun as => as.flatMap T) (xs.mapM f) b := by
  induction xs generalizing b with
  | nil => exact makes_pure hb (List.forall_mem_nil _)
  | cons x xs ih =>
    rw [List.mapM_cons]
    refine (hf x b hb).bind fun a c hc _ ha => (ih hc).bind fun as d hd hcd has => makes_pure hd ?_
    rw [List.flatMap_cons]
    exact List.forall_mem_append.2 ⟨fun id hid => Nat.lt_of_lt_of_le (ha id hid) hcd, has⟩

theorem makes_foldlM {f : α → β → Build α} {xs : List β}
    (hf : ∀ a x b, Consistent schemas [] b → (∀ id ∈ T a, id < b.graph.size) →
      Makes schemas T (f a x) b) (hb : Consistent schemas [] b) {a : α}
    (ha : ∀ id ∈ T a, id < b.graph.size) : Makes schemas T (xs.foldlM f a) b := by
  induction xs generalizing a b with
  | nil => exact makes_pure hb ha
  | cons x xs ih =>
    rw [List.foldlM_cons]
    exact (hf a x b hb ha).bind fun _ _ hc _ hnext => ih hc hnext

/-- Mapping a schema makes a node. -/
theorem makes_mapSchema (hb : Consistent schemas [] b) (s : Schema) :
    Makes schemas (fun id => [id]) (mapSchema schemas s) b := by
  intro result hresult
  have hs : s.All (HeadResolved schemas fun _ => True) :=
    Schema.all_of_forall (fun _ _ _ => .inr trivial) s
  obtain ⟨hadvances, hrepresents⟩ := (mapSchema_goes allResolved_of_true hs hb).of_ok hresult
  exact ⟨hadvances.consistent, hadvances.extended.size_le,
    List.forall_mem_singleton.2 (hrepresents.lt hadvances.consistent.placedNodes)⟩

end

/-! ## Parameters and bodies -/

variable {d : Document} {b : Building}

/-- The node that a body refers to, if there is one. -/
def bodyTypes (body : Option Body) : List TypeId := (body.map (·.parameter.type)).toList

/-- The nodes that parameters refer to. -/
def parameterTypes (parameters : List Parameter) : List TypeId := parameters.map Parameter.type

theorem bodyTypes_eq (body : Option Body) :
    bodyTypes body = parameterTypes (body.map Body.parameter).toList := by
  cases body <;> rfl

/-- The nodes that sorted parameters refer to. -/
def Sorted.types (sorted : Sorted) : List TypeId :=
  parameterTypes sorted.parameters ++ bodyTypes sorted.body

/-- A parameter more refers to a node more. -/
theorem forall_mem_parameterTypes_append {parameters : List Parameter} {p : Parameter} {n m : Nat}
    (h : ∀ id ∈ parameterTypes parameters, id < n) (hle : n ≤ m) (hp : p.type < m) :
    ∀ id ∈ parameterTypes (parameters ++ [p]), id < m := by
  rw [parameterTypes, List.map_append]
  exact List.forall_mem_append.2
    ⟨fun id hid => Nat.lt_of_lt_of_le (h id hid) hle, List.forall_mem_singleton.2 hp⟩

theorem makes_sortParameter (op : OperationObject) {sorted : Sorted} (p : ParameterObject)
    (hb : Consistent d.schemas [] b) (hsorted : ∀ id ∈ sorted.types, id < b.graph.size) :
    Makes d.schemas Sorted.types (sortParameter d op sorted p) b := by
  obtain ⟨hparameters, hbody⟩ := List.forall_mem_append.1 hsorted
  rw [sortParameter]
  split
  · refine (makes_mapSchema hb _).bind fun type c hc hle htype => makes_pure hc ?_
    exact List.forall_mem_append.2
      ⟨forall_mem_parameterTypes_append hparameters hle (htype type List.mem_cons_self),
        fun id hid => Nat.lt_of_lt_of_le (hbody id hid) hle⟩
  · split
    · refine (makes_mapSchema hb _).bind fun type c hc hle htype => makes_pure hc ?_
      exact List.forall_mem_append.2
        ⟨fun id hid => Nat.lt_of_lt_of_le (hparameters id hid) hle, htype⟩
    · split
      · exact makes_pure hb hsorted
      · exact makes_pure hb hsorted

theorem makes_addPlaceholders (path : String) {parameters : List Parameter}
    (hb : Consistent d.schemas [] b) (h : ∀ id ∈ parameterTypes parameters, id < b.graph.size) :
    Makes d.schemas parameterTypes (addPlaceholders d path parameters) b := by
  rw [addPlaceholders]
  refine makes_foldlM (fun parameters name b hb h => ?_) hb h
  split
  · exact makes_pure hb h
  · exact (makes_mapSchema hb _).bind fun type c hc hle htype =>
      makes_pure hc (forall_mem_parameterTypes_append h hle (htype type List.mem_cons_self))

theorem makes_formBody (op : OperationObject) (form : List ParameterObject)
    (hb : Consistent d.schemas [] b) :
    Makes d.schemas (fun body => [body.parameter.type]) (formBody d op form) b := by
  rw [formBody]
  exact (makes_mapSchema hb _).bind fun type c hc _ htype => makes_pure hc htype

theorem makes_requestedBody (body : RequestBody) (hb : Consistent d.schemas [] b) :
    Makes d.schemas bodyTypes (requestedBody d body) b := by
  rw [requestedBody]
  refine (makes_lift hb _).bind fun body c hc _ _ => ?_
  split
  · exact makes_pure hc (List.forall_mem_nil _)
  · exact (makes_mapSchema hc _).bind fun type e he _ htype => makes_pure he htype

/-! ## Responses -/

theorem makes_responseContent (version : Version) (op : OperationObject) (response : ResponseObject)
    (hb : Consistent d.schemas [] b) :
    Makes d.schemas (fun content => content.filterMap Media.type)
      (responseContent d version op response) b := by
  rw [responseContent.eq_def]
  cases version with
  | three =>
    refine (makes_mapM (T := fun media : Media => media.type.toList) (fun entry b hb => ?_) hb).mono
      fun result hresult => ?_
    · obtain ⟨mediaType, schema⟩ := entry
      cases schema with
      | some schema =>
        exact (makes_mapSchema hb _).bind fun type c hc _ htype => makes_pure hc htype
      | none => exact makes_pure hb (List.forall_mem_nil _)
    · simpa only [List.filterMap_eq_flatMap_toList] using hresult
  | two =>
    dsimp only
    split
    · exact makes_pure hb (List.forall_mem_nil _)
    · refine (makes_mapSchema hb _).bind fun type c hc _ htype => makes_pure hc fun id hid => ?_
      obtain ⟨media, hmedia, hid⟩ := List.mem_filterMap.1 hid
      obtain ⟨mediaType, -, rfl⟩ := List.mem_map.1 hmedia
      rw [← Option.some.inj hid]
      exact htype type List.mem_cons_self

theorem makes_buildResponses (version : Version) (op : OperationObject)
    (hb : Consistent d.schemas [] b) :
    Makes d.schemas (fun responses => responses.flatMap Response.types)
      (buildResponses d version op) b := by
  rw [buildResponses]
  refine (makes_mapM (T := fun found : Option Response => found.toList.flatMap Response.types)
    (fun entry b hb => ?_) hb).bind fun found c hc _ hfound => makes_pure hc ?_
  · obtain ⟨key, response⟩ := entry
    dsimp only
    split
    · exact makes_pure hb (List.forall_mem_nil _)
    · refine (makes_lift hb _).bind fun response c hc _ _ => ?_
      refine (makes_responseContent version op response hc).bind fun content e he _ hcontent =>
        makes_pure he ?_
      rwa [Option.toList_some, List.flatMap_singleton]
  · rwa [← List.flatMap_assoc, ← List.filterMap_eq_flatMap_toList] at hfound

/-! ## Operations -/

/-- The body of an operation is the first of several that there is. -/
theorem forall_mem_bodyTypes_or {x y : Option Body} {p : TypeId → Prop}
    (hx : ∀ id ∈ bodyTypes x, p id) (hy : ∀ id ∈ bodyTypes y, p id) :
    ∀ id ∈ bodyTypes (x <|> y), p id := by
  cases x with
  | none => exact hy
  | some body => exact hx

/-- The last steps of building an operation: the bodies are made, and then the responses. -/
theorem makes_finishOperation (version : Version) (path : String) (method : Method)
    (op : OperationObject) {parameters : List Parameter} {sorted : Option Body}
    (hparameters : ∀ id ∈ parameterTypes parameters, id < b.graph.size)
    (hsorted : ∀ id ∈ bodyTypes sorted, id < b.graph.size)
    {makeForm makeRequested : Build (Option Body)}
    (hform : Makes d.schemas bodyTypes makeForm b)
    (hrequested : ∀ c, Consistent d.schemas [] c → Makes d.schemas bodyTypes makeRequested c) :
    Makes d.schemas Operation.types (do
      let form ← makeForm
      let requested ← makeRequested
      let responses ← buildResponses d version op
      return {
        id := ""
        declaredId := op.id
        method, path
        summary := op.summary <|> op.description
        parameters := parameters ++ ((requested <|> form <|> sorted).map Body.parameter).toList
        content := (requested <|> form <|> sorted).map Body.content
        responses }) b := by
  refine hform.bind fun form c hc hbc hform => ?_
  refine (hrequested c hc).bind fun requested e he hce hrequested => ?_
  refine (makes_buildResponses version op he).bind fun responses f hf hef hresponses => ?_
  have hcf := Nat.le_trans hce hef
  have hbf := Nat.le_trans hbc hcf
  refine makes_pure hf (List.forall_mem_append.2 ⟨?_, hresponses⟩)
  dsimp only
  rw [List.map_append]
  refine List.forall_mem_append.2 ⟨fun id hid => Nat.lt_of_lt_of_le (hparameters id hid) hbf, ?_⟩
  change ∀ id ∈ parameterTypes _, _
  rw [← bodyTypes_eq]
  exact forall_mem_bodyTypes_or (fun id hid => Nat.lt_of_lt_of_le (hrequested id hid) hef)
    (forall_mem_bodyTypes_or (fun id hid => Nat.lt_of_lt_of_le (hform id hid) hcf)
      fun id hid => Nat.lt_of_lt_of_le (hsorted id hid) hbf)

theorem makes_buildOperation (version : Version) (path : String) (item : PathItem) (method : Method)
    (op : OperationObject) (hb : Consistent d.schemas [] b) :
    Makes d.schemas Operation.types (buildOperation d version path item method op) b := by
  rw [buildOperation]
  refine (makes_lift hb _).bind fun merged c hc _ _ => ?_
  refine (makes_foldlM (fun sorted p b hb h => makes_sortParameter op p hb h) hc
    (List.forall_mem_nil _)).bind fun sorted e he _ hsorted => ?_
  obtain ⟨hplain, hbody⟩ := List.forall_mem_append.1 hsorted
  refine (makes_addPlaceholders path he hplain).bind fun parameters f hf hef hparameters => ?_
  have hnone (c : Building) (hc : Consistent d.schemas [] c) :
      Makes d.schemas bodyTypes (pure none) c := makes_pure hc (List.forall_mem_nil _)
  have hform : Makes d.schemas bodyTypes (some <$> formBody d op sorted.form) f := by
    rw [map_eq_pure_bind]
    exact (makes_formBody op sorted.form hf).bind fun body i hi _ h => makes_pure hi h
  have hfinish {makeForm makeRequested : Build (Option Body)} :=
    @makes_finishOperation d f version path method op parameters sorted.body hparameters
      (fun id hid => Nat.lt_of_lt_of_le (hbody id hid) hef) makeForm makeRequested
  split
  · rename_i body hbody
    have hrequested (c : Building) (hc : Consistent d.schemas [] c) := makes_requestedBody body hc
    split
    · exact hfinish (hnone f hf) hrequested
    · exact hfinish hform hrequested
  · split
    · exact hfinish (hnone f hf) hnone
    · exact hfinish hform hnone

theorem makes_buildOperations (version : Version) (hb : Consistent d.schemas [] b) :
    Makes d.schemas (fun ops => ops.flatMap Operation.types) (buildOperations d version) b := by
  have hcomponents : Makes d.schemas (fun _ => []) (mapComponents d.schemas) b := by
    intro result hresult
    have hadvances := ((mapComponents_goes allResolved_of_true hb).of_ok hresult).1
    exact ⟨hadvances.consistent, hadvances.extended.size_le, List.forall_mem_nil _⟩
  rw [buildOperations]
  refine hcomponents.bind fun _ c hc _ _ => ?_
  refine (makes_mapM (T := fun ops : List Operation => ops.flatMap Operation.types)
    (fun entry b hb => makes_mapM (fun operation b hb => ?_) hb) hc).bind
    fun ofPaths e he _ hofPaths => makes_pure he ?_
  · exact makes_buildOperation version entry.1 entry.2 operation.1 operation.2 hb
  · rwa [← List.flatMap_id, List.flatMap_assoc]

/-- **The graph of an OpenAPI document is in order**, whatever the document says, and its operations
refer to nodes of it. -/
theorem grown_of_document {api : Definition} (h : d.toDefinition = .ok api) :
    api.types.Grown ∧ ∀ op ∈ api.operations, ∀ id ∈ op.types, id < api.types.size := by
  obtain ⟨version, operations, built, -, hbuilt, hnamed, htypes⟩ := yields_toDefinition d api h
  obtain ⟨hconsistent, -, hlt⟩ :=
    makes_buildOperations version (consistent_empty d.schemas) _ hbuilt
  rw [htypes]
  refine ⟨hconsistent.grown, fun op hop id hid => ?_⟩
  obtain ⟨unnamed, hunnamed, hsame⟩ := exists_of_mem_nameOperations hnamed hop
  rw [hsame] at hid
  exact hlt id (List.mem_flatMap.2 ⟨unnamed, hunnamed, hid⟩)

end TypedClient.OpenApi
