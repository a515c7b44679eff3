import TypedClient.Document
import TypedClient.Proofs.Api.Operation
import TypedClient.Proofs.OpenApi.DocumentSchemas
import TypedClient.Proofs.OpenApi.Keeping

/-!
# The operations of a document

How the parameters of an operation are arranged, whatever the document says: `Arranged` lists it,
and `buildOperation_keeps` shows it of an operation that is being built.  `arranged_of_normalize` is
the statement for all operations of a definition.

On the way nothing but schemas is mapped, and these are schemas of the document or made of such.  So
whatever mapping them keeps is kept by the building of operations too; `Kept` is what this asks for.
-/

set_option autoImplicit false

namespace TypedClient.OpenApi

open TypedClient.Api TypedClient.Naming

/-! ## What is kept -/

/-- The keywords list no values. -/
structure Keywords.Valueless (keywords : Keywords) : Prop where
  /-- There is no enumeration. -/
  values : keywords.values = []
  /-- There is no constant. -/
  constant : keywords.constant = none

/-- The property holds of schemas that are made of schemas of which it holds. -/
structure Formed (P : Schema → Prop) : Prop where
  /-- It holds of schemas without schemas inside. -/
  keywords : ∀ keywords : Keywords, keywords.Valueless → P (.ofKeywords keywords)
  /-- It holds of objects. -/
  properties : ∀ (keywords : Keywords) entries, keywords.Valueless →
    (∀ entry ∈ entries, P entry.2) →
    P { Schema.ofKeywords keywords with properties := Dict.ofList entries }

/-- Mapping the schemas of a document, of which `P` holds, keeps the property `I` of states. -/
structure Kept (P : Schema → Prop) (I : Building → Prop) (d : Document) : Prop where
  /-- The property `P` holds of schemas that are made of others. -/
  formed : Formed P
  /-- It holds of the schemas of the document. -/
  all : d.AllSchemas P
  /-- Mapping such a schema keeps `I`. -/
  mapSchema : ∀ s, P s → Keeps I (fun _ => True) (mapSchema d.schemas s)
  /-- Mapping the named schemas keeps `I`. -/
  mapComponents : Keeps I (fun _ => True) (mapComponents d.schemas)

variable {P : Schema → Prop} {I : Building → Prop} {d : Document}

/-! ## Parameters -/

/-- A parameter outside of the body; those of the path are required. -/
structure IsPlain (p : Parameter) : Prop where
  /-- It stands outside of the body. -/
  place : p.location ≠ .body
  /-- It is required if it stands in the path. -/
  required : p.location = .path → p.required = true

theorem mem_overlayParameter {merged : List ParameterObject} {p q : ParameterObject}
    (h : q ∈ overlayParameter merged p) : q = p ∨ q ∈ merged := by
  induction merged with
  | nil => exact .inl (List.mem_singleton.1 h)
  | cons first rest ih =>
    rw [overlayParameter] at h
    split at h
    · exact (List.mem_cons.1 h).imp id (List.mem_cons_of_mem _)
    · rcases List.mem_cons.1 h with rfl | h
      · exact .inr List.mem_cons_self
      · exact (ih h).imp id (List.mem_cons_of_mem _)

theorem mem_foldl_overlayParameter {ps merged : List ParameterObject} {q : ParameterObject}
    (h : q ∈ ps.foldl overlayParameter merged) : q ∈ ps ∨ q ∈ merged := by
  induction ps generalizing merged with
  | nil => exact .inr h
  | cons p ps ih =>
    rcases ih h with h | h
    · exact .inl (List.mem_cons_of_mem _ h)
    · rcases mem_overlayParameter h with rfl | h
      · exact .inl List.mem_cons_self
      · exact .inr h

theorem mergeParameters_allSchemas (hd : d.AllSchemas P) {ofPath ofOperation : List ParameterObject}
    (hpath : ∀ p ∈ ofPath, p.AllSchemas P) (hop : ∀ p ∈ ofOperation, p.AllSchemas P) :
    Yields (mergeParameters d ofPath ofOperation) fun merged => ∀ p ∈ merged, p.AllSchemas P := by
  have hfound : Yields ((ofPath ++ ofOperation).mapM d.parameter)
      fun ps => ∀ p ∈ ps, p.AllSchemas P := by
    refine Yields.mapM fun p hp => hd.parameter ?_
    rcases List.mem_append.1 hp with hp | hp
    · exact hpath p hp
    · exact hop p hp
  refine hfound.bind fun ps hps => yields_pure fun p hp => ?_
  rcases mem_foldl_overlayParameter hp with hp | hp
  · exact hps p hp
  · exact absurd hp List.not_mem_nil

theorem placeOf?_ne_body {place : String} {location : Location}
    (h : placeOf? place = some location) :
    location ≠ .body := by
  rw [placeOf?.eq_def] at h
  split at h
  all_goals cases h
  all_goals exact Location.noConfusion

/-- The parameter is the one that carries a body. -/
def IsBody (p : Parameter) : Prop := p = bodyParameter p.type p.required

theorem isBody_bodyParameter (type : Types.TypeId) (required : Bool) :
    IsBody (bodyParameter type required) := rfl

theorem IsBody.place {p : Parameter} (hp : IsBody p) : p.location = .body := by rw [hp]; rfl

/-- Whichever body there is, if any, is carried by a parameter of its own. -/
def Carried (body : Option Body) : Prop := ∀ made, body = some made → IsBody made.parameter

theorem carried_none : Carried none := fun _ hmade => nomatch hmade

/-- What has been sorted is where it belongs. -/
structure Sorted.Arranged (P : Schema → Prop) (sorted : Sorted) : Prop where
  /-- The parameters stand outside of the body. -/
  plain : ∀ p ∈ sorted.parameters, IsPlain p
  /-- The property holds of the schemas of form fields. -/
  form : ∀ p ∈ sorted.form, p.AllSchemas P
  /-- The body is carried by a parameter of its own. -/
  body : Carried sorted.body

theorem sortParameter_keeps (h : Kept P I d) (op : OperationObject) {sorted : Sorted}
    (hsorted : sorted.Arranged P) {p : ParameterObject} (hp : p.AllSchemas P) :
    Keeps I (Sorted.Arranged P) (sortParameter d op sorted p) := by
  have hvalue := h.mapSchema _ hp
  rw [sortParameter]
  split
  · rename_i location hlocation
    refine hvalue.bind fun type _ => keeps_pure ⟨fun q hq => ?_, hsorted.form, hsorted.body⟩
    rcases List.mem_append.1 hq with hq | hq
    · exact hsorted.plain q hq
    · rw [List.mem_singleton.1 hq]
      refine ⟨placeOf?_ne_body hlocation, fun hpath => ?_⟩
      change location = .path at hpath
      simp [hpath]
  · split
    · refine hvalue.bind fun type _ =>
        keeps_pure ⟨hsorted.plain, hsorted.form, fun body hbody => ?_⟩
      cases hbody
      rfl
    · split
      · refine keeps_pure ⟨hsorted.plain, fun q hq => ?_, hsorted.body⟩
        rcases List.mem_append.1 hq with hq | hq
        · exact hsorted.form q hq
        · rwa [List.mem_singleton.1 hq]
      · exact keeps_pure hsorted

/-- A parameter of the path has the name. -/
def DeclaresPath (parameters : List Parameter) (name : String) : Prop :=
  ∃ p ∈ parameters, p.location = .path ∧ p.name = name

/-- Every placeholder gets a parameter, and those that are there stay. -/
theorem addPlaceholders_keeps (h : Kept P I d) (path : String) {parameters : List Parameter}
    (hplain : ∀ p ∈ parameters, IsPlain p) :
    Keeps I (fun all => (∀ p ∈ all, IsPlain p) ∧ ∀ name ∈ placeholders path, DeclaresPath all name)
      (addPlaceholders d path parameters) := by
  rw [addPlaceholders]
  suffices hnames : ∀ (names : List String) (parameters : List Parameter),
      (∀ p ∈ parameters, IsPlain p) →
      Keeps I (fun all => (∀ p ∈ all, IsPlain p) ∧ (∀ p ∈ parameters, p ∈ all) ∧
          ∀ name ∈ names, DeclaresPath all name)
        (names.foldlM (fun parameters name => do
          if parameters.any fun p => p.location = .path && p.name == name then return parameters
          else
            let type ← mapSchema d.schemas (Schema.ofKeywords { types := some ["string"] })
            return parameters ++ [⟨name, .path, true, type, none⟩]) parameters) by
    exact (hnames _ _ hplain).mono fun all hall => ⟨hall.1, hall.2.2⟩
  intro names
  induction names with
  | nil =>
    intro parameters hplain
    exact keeps_pure ⟨hplain, fun _ hp => hp, List.forall_mem_nil _⟩
  | cons name names ih =>
    intro parameters hplain
    rw [List.foldlM_cons]
    have hfirst : Keeps I (fun next => (∀ p ∈ next, IsPlain p) ∧ (∀ p ∈ parameters, p ∈ next) ∧
          DeclaresPath next name)
        (if parameters.any fun p => p.location = .path && p.name == name then pure parameters
          else do
            let type ← mapSchema d.schemas (Schema.ofKeywords { types := some ["string"] })
            return parameters ++ [⟨name, .path, true, type, none⟩]) := by
      split
      · rename_i hany
        obtain ⟨p, hp, hfound⟩ := List.any_eq_true.1 hany
        rw [Bool.and_eq_true, decide_eq_true_eq, beq_iff_eq] at hfound
        exact keeps_pure ⟨hplain, fun _ hp => hp, p, hp, hfound⟩
      · refine (h.mapSchema _ (h.formed.keywords _ ⟨rfl, rfl⟩)).bind fun type _ =>
          keeps_pure ⟨fun p hp => ?_,
          fun _ hp => List.mem_append_left _ hp, _,
          List.mem_append_right _ List.mem_cons_self, rfl, rfl⟩
        rcases List.mem_append.1 hp with hp | hp
        · exact hplain p hp
        · rw [List.mem_singleton.1 hp]
          exact ⟨Location.noConfusion, fun _ => rfl⟩
    refine hfirst.bind fun next hnext => ?_
    obtain ⟨hplain, hkept, p, hp, hfound⟩ := hnext
    refine (ih next hplain).mono fun all hall => ⟨hall.1, fun q hq => hall.2.1 q (hkept q hq), ?_⟩
    exact List.forall_mem_cons.2 ⟨⟨p, hall.2.1 p hp, hfound⟩, hall.2.2⟩

/-! ## Bodies -/

theorem formBody_keeps (h : Kept P I d) (op : OperationObject) {form : List ParameterObject}
    (hform : ∀ p ∈ form, p.AllSchemas P) :
    Keeps I (fun body => IsBody body.parameter) (formBody d op form) := by
  have hschema := h.formed.properties
    { types := some ["object"], required := (form.filter (·.required)).map ParameterObject.name }
    (form.map fun p => (p.name, p.valueSchema)) ⟨rfl, rfl⟩ fun entry hentry => by
      obtain ⟨p, hp, rfl⟩ := List.mem_map.1 hentry
      exact hform p hp
  exact (h.mapSchema _ hschema).bind fun type _ => keeps_pure rfl

theorem mem_of_preferred? {α : Type} {content : Dict α} {entry : String × α}
    (h : preferred? content = some entry) : entry ∈ content := by
  simp only [preferred?, Option.orElse_eq_orElse, Option.orElse_eq_or, Option.or_eq_some_iff] at h
  rcases h with h | ⟨-, h | ⟨-, h⟩⟩
  · exact List.mem_of_find?_eq_some h
  · exact List.mem_of_find?_eq_some h
  · exact List.mem_of_head? h

theorem requestedBody_keeps (h : Kept P I d) {body : RequestBody}
    (hbody : ContentSchemas P body.content) :
    Keeps I Carried (requestedBody d body) := by
  rw [requestedBody]
  refine (keeps_lift (h.all.requestBody hbody)).bind fun body hbody => ?_
  cases hpreferred : preferred? body.content with
  | none => exact keeps_pure carried_none
  | some entry =>
    obtain ⟨mediaType, schema⟩ := entry
    have hschema : P (schema.getD (Schema.ofKeywords { })) := by
      cases schema with
      | none => exact h.formed.keywords _ ⟨rfl, rfl⟩
      | some schema => exact hbody _ (mem_of_preferred? hpreferred) schema rfl
    refine (h.mapSchema _ hschema).bind fun type _ => keeps_pure fun made hmade => ?_
    rw [← Option.some.inj hmade]
    exact isBody_bodyParameter type body.required

/-! ## Responses -/

theorem responseContent_keeps (h : Kept P I d) (version : Version) (op : OperationObject)
    {response : ResponseObject} (hresponse : response.AllSchemas P) :
    Keeps I (fun _ => True) (responseContent d version op response) := by
  rw [responseContent.eq_def]
  cases version with
  | three =>
    refine (Keeps.mapM (S := fun _ => True) fun entry hentry => ?_).trivial
    obtain ⟨mediaType, schema⟩ := entry
    cases schema with
    | none => exact keeps_pure True.intro
    | some schema =>
      exact (h.mapSchema schema (hresponse.content _ hentry schema rfl)).bind fun type _ =>
        keeps_pure True.intro
  | two =>
    cases hschema : response.schema with
    | none => exact keeps_pure True.intro
    | some schema =>
      exact (h.mapSchema schema (hresponse.schema schema hschema)).bind fun type _ =>
        keeps_pure True.intro

/-- A response that was made for a key has a code of 16 bits, if any. -/
def FitsIfMade (found : Option Response) : Prop :=
  ∀ response, found = some response → response.status.Fits

theorem buildResponses_keeps (h : Kept P I d) (version : Version) {op : OperationObject}
    (hop : ∀ entry ∈ op.responses, entry.2.AllSchemas P) :
    Keeps I (fun responses => ∀ response ∈ responses, response.status.Fits)
      (buildResponses d version op) := by
  rw [buildResponses]
  refine (Keeps.mapM (S := FitsIfMade) fun entry hentry => ?_).bind fun found hfound =>
    keeps_pure fun response hresponse => ?_
  · obtain ⟨key, response⟩ := entry
    dsimp only
    split
    · exact keeps_pure fun _ h => nomatch h
    · rename_i status hstatus
      refine (keeps_lift (h.all.response (hop _ hentry))).bind fun response hresponse => ?_
      refine (responseContent_keeps h version op hresponse).bind fun _ _ => keeps_pure ?_
      intro made hmade
      cases hmade
      exact StatusKey.fits_of_ofText hstatus
  · obtain ⟨other, hother, hsame⟩ := List.mem_filterMap.1 hresponse
    exact hfound other hother response hsame

/-! ## Operations -/

/-- How the parameters of an operation are arranged. -/
structure Arranged (op : Operation) : Prop where
  /-- The body is the last of the parameters, and the others stand outside of it. -/
  parameters : ∃ plain, (∀ p ∈ plain, IsPlain p) ∧ op.parameters = plain ++ op.body?.toList
  /-- The body is carried by a parameter of its own. -/
  body : ∀ p, op.body? = some p → IsBody p
  /-- There is a body just if there is content for one. -/
  content : op.content.isSome = op.body?.isSome
  /-- Every placeholder of the path has a parameter. -/
  declared : ∀ name ∈ placeholders op.path, DeclaresPath op.parameters name

theorem Arranged.required {op : Operation} (h : Arranged op) : ∀ p ∈ op.parameters,
    p.location = .path → p.required = true := by
  intro p hp hlocation
  obtain ⟨plain, hplain, hparameters⟩ := h.parameters
  rw [hparameters] at hp
  rcases List.mem_append.1 hp with hp | hp
  · exact (hplain p hp).required hlocation
  · rw [(h.body p (Option.mem_toList.1 hp)).place] at hlocation
    cases hlocation

theorem Arranged.eq_body {op : Operation} (h : Arranged op) {p : Parameter} (hp : p ∈ op.parameters)
    (hplace : p.location = .body) : op.body? = some p := by
  obtain ⟨plain, hplain, hparameters⟩ := h.parameters
  rw [hparameters] at hp
  rcases List.mem_append.1 hp with hp | hp
  · exact absurd hplace (hplain p hp).place
  · exact Option.mem_toList.1 hp

/-- The body of parameters among which only the last can be one. -/
theorem find?_body {plain : List Parameter} (hplain : ∀ p ∈ plain, IsPlain p)
    {body : Option Parameter} (hbody : ∀ p, body = some p → IsBody p) :
    (plain ++ body.toList).find? (·.location = .body) = body := by
  have hnone : plain.find? (·.location = .body) = none :=
    List.find?_eq_none.2 fun p hp => by simpa using (hplain p hp).place
  rw [List.find?_append, hnone, Option.none_or]
  cases body with
  | none => rfl
  | some p => simp [(hbody p rfl).place]

theorem arranged_of_parts {op : Operation} {plain : List Parameter} {body : Option Body}
    (hplain : ∀ p ∈ plain, IsPlain p) (hbody : Carried body)
    (hparameters : op.parameters = plain ++ (body.map Body.parameter).toList)
    (hcontent : op.content = body.map Body.content)
    (hdeclared : ∀ name ∈ placeholders op.path, DeclaresPath plain name) : Arranged op := by
  have hcarried : ∀ p, body.map Body.parameter = some p → IsBody p := by
    intro p hp
    obtain ⟨made, hmade, rfl⟩ := Option.map_eq_some_iff.1 hp
    exact hbody made hmade
  have hfound : op.body? = body.map Body.parameter := by
    rw [Operation.body?, hparameters, find?_body hplain hcarried]
  refine ⟨⟨plain, hplain, by rw [hfound, hparameters]⟩, by rwa [hfound], ?_, fun name hname => ?_⟩
  · rw [hfound, hcontent, Option.isSome_map, Option.isSome_map]
  · obtain ⟨p, hp, hdeclares⟩ := hdeclared name hname
    rw [hparameters]
    exact ⟨p, List.mem_append_left _ hp, hdeclares⟩

/-- The last steps of building an operation: the bodies are made, and then the responses. -/
theorem finishOperation_keeps (h : Kept P I d) (version : Version) (path : String) (method : Method)
    {op : OperationObject} (hop : op.AllSchemas P) {parameters : List Parameter}
    (hplain : ∀ p ∈ parameters, IsPlain p)
    (hdeclared : ∀ name ∈ placeholders path, DeclaresPath parameters name)
    {sorted : Option Body} (hsorted : Carried sorted) {makeForm makeRequested : Build (Option Body)}
    (hform : Keeps I Carried makeForm) (hrequested : Keeps I Carried makeRequested) :
    Keeps I (fun op => Arranged op ∧ op.CodesFit) (do
      let form ← makeForm
      let requested ← makeRequested
      let responses ← buildResponses d version op
      return {
        id := ""
        declaredId := op.id
        method, path
        summary := op.summary <|> op.description
        parameters := parameters ++ ((requested <|> form <|> sorted).map Body.parameter).toList
        content := (requested <|> form <|> sorted).map Body.content
        responses }) := by
  refine hform.bind fun form hform => hrequested.bind fun requested hrequested => ?_
  refine (buildResponses_keeps h version hop.responses).bind fun responses hfit => keeps_pure ?_
  refine ⟨arranged_of_parts hplain (fun made hmade => ?_) rfl rfl hdeclared, hfit⟩
  simp only [Option.orElse_eq_orElse, Option.orElse_eq_or, Option.or_eq_some_iff] at hmade
  rcases hmade with hmade | ⟨-, hmade | ⟨-, hmade⟩⟩
  · exact hrequested made hmade
  · exact hform made hmade
  · exact hsorted made hmade

/-- An operation that is being built is arranged, and the codes of its responses have 16 bits. -/
theorem buildOperation_keeps (h : Kept P I d) (version : Version) (path : String) {item : PathItem}
    (hitem : item.AllSchemas P) (method : Method) {op : OperationObject} (hop : op.AllSchemas P) :
    Keeps I (fun op => Arranged op ∧ op.CodesFit)
      (buildOperation d version path item method op) := by
  rw [buildOperation]
  refine (keeps_lift (mergeParameters_allSchemas h.all hitem.parameters hop.parameters)).bind
    fun merged hmerged => ?_
  have hsorted : Keeps I (Sorted.Arranged P) (merged.foldlM (sortParameter d op) ⟨[], [], none⟩) :=
    Keeps.foldlM (fun p hp sorted hsorted => sortParameter_keeps h op hsorted (hmerged p hp))
      ⟨List.forall_mem_nil _, List.forall_mem_nil _, carried_none⟩
  refine hsorted.bind fun sorted hsorted => ?_
  refine (addPlaceholders_keeps h path hsorted.plain).bind fun parameters hparameters => ?_
  have hnone : Keeps I Carried (pure none) := keeps_pure carried_none
  have hform : Keeps I Carried (some <$> formBody d op sorted.form) :=
    (formBody_keeps h op hsorted.form).map fun body hbody made hmade => by
      rwa [← Option.some.inj hmade]
  have hfinish {makeForm makeRequested : Build (Option Body)} :=
    @finishOperation_keeps _ _ _ h version path method _ hop _ hparameters.1 hparameters.2 _
      hsorted.body makeForm makeRequested
  split
  · rename_i body hbody
    have hrequested := requestedBody_keeps h (hop.requestBody body hbody)
    split
    · exact hfinish hnone hrequested
    · exact hfinish hform hrequested
  · split
    · exact hfinish hnone hnone
    · exact hfinish hform hnone

/-- Building keeps what holds once the named schemas have been mapped. -/
theorem yields_buildOperations (h : Kept P I d) (version : Version) {b : Building}
    (hcomponents : Yields (mapComponents d.schemas b) fun result => I result.2) :
    Yields (buildOperations d version b) fun result =>
      I result.2 ∧ ∀ op ∈ result.1, Arranged op ∧ op.CodesFit := by
  rw [buildOperations]
  refine hcomponents.bind fun result hresult => ?_
  have hpaths : Keeps I (fun ofPaths => ∀ ops ∈ ofPaths, ∀ op ∈ ops, Arranged op ∧ op.CodesFit)
      (d.paths.mapM fun entry => entry.2.operations.mapM fun operation =>
        buildOperation d version entry.1 entry.2 operation.1 operation.2) := by
    refine Keeps.mapM fun entry hentry => Keeps.mapM fun operation hoperation => ?_
    have hitem := h.all.paths entry hentry
    exact buildOperation_keeps h version entry.1 hitem operation.1 (hitem.operations _ hoperation)
  refine Keeps.bind (S := fun ops => ∀ op ∈ ops, Arranged op ∧ op.CodesFit) hpaths
    (fun ofPaths hofPaths => keeps_pure fun op hop => ?_) result.2 hresult
  obtain ⟨ops, hops, hop⟩ := List.mem_flatten.1 hop
  exact hofPaths ops hops op hop

theorem buildOperations_keeps (h : Kept P I d) (version : Version) :
    Keeps I (fun ops => ∀ op ∈ ops, Arranged op ∧ op.CodesFit) (buildOperations d version) :=
  fun b hb =>
    yields_buildOperations h version ((h.mapComponents b hb).mono fun _ hresult => hresult.1)

/-! ## Definitions -/

/-- Naming changes nothing but the id of an operation. -/
theorem exists_of_mem_nameOperations {operations named : List Operation}
    (h : nameOperations operations = .ok named) {op : Operation} (hop : op ∈ named) :
    ∃ unnamed ∈ operations, op = { unnamed with id := op.id } := by
  rw [nameOperations] at h
  split at h
  · cases h
    obtain ⟨i, hi, rfl⟩ := List.mem_iff_getElem.1 hop
    rw [List.length_zipWith] at hi
    rw [List.getElem_zipWith]
    exact ⟨_, List.getElem_mem _, rfl⟩
  · cases h

theorem Arranged.named {op : Operation} (h : Arranged op) (id : String) :
    Arranged { op with id } := ⟨h.parameters, h.body, h.content, h.declared⟩

/-- What the definition of a document consists of. -/
theorem yields_toDefinition (d : Document) :
    Yields d.toDefinition fun api => ∃ version operations built, d.version = .ok version ∧
      buildOperations d version Building.empty = .ok (operations, built) ∧
        nameOperations operations = .ok api.operations ∧ api.types = built.graph := by
  rw [Document.toDefinition]
  refine (yields_self _).bind fun version hversion => ?_
  refine (yields_self _).bind fun result hresult => ?_
  refine (yields_self _).bind fun operations hoperations => yields_ok ?_
  exact ⟨version, result.1, result.2, hversion, hresult, hoperations, rfl⟩

/-- The operations of a definition are arranged, and what mapping keeps holds of the types. -/
theorem Kept.toDefinition (h : Kept P I d) (hempty : I Building.empty) :
    Yields d.toDefinition fun api => (∀ op ∈ api.operations, Arranged op ∧ op.CodesFit) ∧
      ∃ built, I built ∧ api.types = built.graph := by
  refine (yields_toDefinition d).mono fun api hapi => ?_
  obtain ⟨version, operations, built, -, hbuilt, hnamed, htypes⟩ := hapi
  obtain ⟨hI, harranged⟩ := buildOperations_keeps h version _ hempty _ hbuilt
  refine ⟨fun op hop => ?_, built, hI, htypes⟩
  obtain ⟨unnamed, hunnamed, hop⟩ := exists_of_mem_nameOperations hnamed hop
  obtain ⟨harranged, hcodes⟩ := harranged unnamed hunnamed
  rw [hop]
  exact ⟨harranged.named op.id, hcodes⟩

/-- A definition is that of a document or that of a schema which has been read. -/
theorem yields_normalize {document : Json} {kind : Option SchemaKind} {Q : Definition → Prop}
    (hdocument : ∀ d, Document.ofJson document = .ok d → Yields d.toDefinition Q)
    (hschema : ∀ schema, GraphQl.Introspection.ofJson document = .ok schema →
      Yields schema.toDefinition Q) : Yields (normalize document kind) Q := by
  rw [normalize]
  refine (yields_true _).bind fun kind _ => ?_
  cases kind with
  | openApi => exact (yields_self _).bind fun d hd => hdocument d hd
  | graphql => exact (yields_self _).bind fun schema hread => hschema schema hread

theorem kind_of_introspection {schema : GraphQl.Introspection} {api : Definition}
    (h : schema.toDefinition = .ok api) : api.kind = .graphql := by
  rw [GraphQl.Introspection.toDefinition] at h
  split at h
  · cases h
  · rw [← Except.ok.inj h]

theorem kind_of_document {d : Document} {api : Definition} (h : d.toDefinition = .ok api) :
    api.kind = .openApi := by
  revert api
  change Yields d.toDefinition fun api => api.kind = .openApi
  rw [Document.toDefinition]
  refine (yields_true _).bind fun _ _ => (yields_true _).bind fun _ _ => ?_
  exact (yields_true _).bind fun _ _ => yields_ok rfl

/-- The kind of a definition is the one that is asked for, or else that of the document. -/
theorem kind_of_normalize {document : Json} {kind : Option SchemaKind} {api : Definition}
    (h : normalize document kind = .ok api) : kind.elim (kindOf document) .ok = .ok api.kind := by
  revert api
  change Yields (normalize document kind) fun api => kind.elim (kindOf document) .ok = .ok api.kind
  rw [normalize]
  refine (yields_self _).bind fun found hfound => ?_
  rw [hfound]
  cases found with
  | openApi => exact (yields_true _).bind fun d _ api hapi => by rw [kind_of_document hapi]
  | graphql =>
    exact (yields_true _).bind fun schema _ api hapi => by rw [kind_of_introspection hapi]

/-- The definition of a document of OpenAPI is one. -/
theorem kind_eq_openApi {document : Json} {api : Definition}
    (h : normalize document none = .ok api) (hkind : kindOf document = .ok .openApi) :
    api.kind = .openApi := Except.ok.inj ((kind_of_normalize h).symm.trans hkind)

/-- An OpenAPI definition is that of a document which has been read. -/
theorem exists_document_of_normalize {document : Json} {kind : Option SchemaKind} {api : Definition}
    (h : normalize document kind = .ok api) (hkind : api.kind = .openApi) :
    ∃ d, Document.ofJson document = .ok d ∧ d.toDefinition = .ok api := by
  refine yields_normalize (Q := fun api => api.kind = .openApi →
    ∃ d, Document.ofJson document = .ok d ∧ d.toDefinition = .ok api)
    (fun d hd api hapi _ => ⟨d, hd, hapi⟩) (fun schema _ api hapi hkind => ?_) api h hkind
  rw [kind_of_introspection hapi] at hkind
  cases hkind

theorem formed_true : Formed fun _ => True := ⟨fun _ _ => trivial, fun _ _ _ _ => trivial⟩

theorem keeps_true {α : Type} (m : Build α) : Keeps (fun _ => True) (fun _ => True) m :=
  fun _ _ => (yields_true _).mono fun _ _ => ⟨trivial, trivial⟩

theorem kept_true (d : Document) : Kept (fun _ => True) (fun _ => True) d where
  formed := formed_true
  all := d.allSchemas_of_forall fun _ => trivial
  mapSchema := fun _ _ => keeps_true _
  mapComponents := keeps_true _

/-- **The operations of an OpenAPI definition are arranged**: the body is the last parameter, the
parameters of the path are required, and every placeholder of the path has one. -/
theorem arranged_of_normalize {document : Json} {kind : Option SchemaKind} {api : Definition}
    (h : normalize document kind = .ok api) (hkind : api.kind = .openApi) :
    ∀ op ∈ api.operations, Arranged op := by
  obtain ⟨d, -, hd⟩ := exists_document_of_normalize h hkind
  exact fun op hop => (((kept_true d).toDefinition trivial api hd).1 op hop).1

/-! ## A document -/

/-- The schema of texts. -/
def textSchema : Json := .object [("type", .string "string")]

/-- A document with one operation.  The identifier of a movie stands in the path and in the body,
and only the latter is declared. -/
def moviesDocument : Json := .object [
  ("openapi", .string "3.0.3"),
  ("paths", .object [("/movies/\x7bid\x7d", .object [("put", .object [
    ("operationId", .string "updateMovie"),
    ("parameters", .array [
      .object [("in", .string "query"), ("name", .string "dry"), ("schema", textSchema)],
      .object [("in", .string "header"), ("name", .string "X-Trace"), ("schema", textSchema)]]),
    ("requestBody", .object [
      ("content", .object [("application/json", .object [("schema", .object [
        ("properties", .object [("id", textSchema)]),
        ("required", .array [.string "id"]),
        ("type", .string "object")])])]),
      ("required", .bool true)])])])])]

/-- The definition of the document. -/
def moviesApi : Definition :=
  match normalize moviesDocument none with
  | .ok api => api
  | .error _ => ⟨.openApi, "", "", [], [], .empty, none⟩

theorem normalize_movies : normalize moviesDocument none = .ok moviesApi := by
  obtain ⟨api, hapi⟩ := exists_eq_ok (m := normalize moviesDocument none) (by decide +kernel)
  rw [moviesApi, hapi]

theorem kind_movies : moviesApi.kind = .openApi := kind_eq_openApi normalize_movies rfl

/-- The operation of the document. -/
def updateMovie : Operation where
  id := "updateMovie"
  declaredId := some "updateMovie"
  method := .put
  path := "/movies/\x7bid\x7d"
  summary := none
  parameters := [⟨"dry", .query, false, 0, none⟩, ⟨"X-Trace", .header, false, 1, none⟩,
    ⟨"id", .path, true, 2, none⟩, ⟨"body", .body, true, 4, none⟩]
  content := some ⟨.json, "application/json"⟩
  responses := []

theorem mem_movies : updateMovie ∈ moviesApi.operations := by decide +kernel

end TypedClient.OpenApi
