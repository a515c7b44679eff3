import TypedClient.Proofs.Client.Binding
import TypedClient.Proofs.Client.DeclaredResponses
import TypedClient.Proofs.Client.Precedence
import TypedClient.Proofs.OpenApi.Parameters

/-!
# Forms in several parts

Media types are told apart by their essence, but for that of forms in several parts: it is compared
with the whole text, so that a form with parameters, such as a boundary, is none of the known kinds.

* `classify_eq_classify_essence_iff` says which media types have the kind of their essence;
* `preferred?_eq` says what is chosen among the media types of a request body, and `AsksForForm`
  whether that is a form: `buildOperation_bodied` takes this through the building of operations;
* `bind_eq_formRequired_iff` says when a call is refused for want of a form;
* `forms_of_normalize` puts the three together for all operations of a definition.
-/

set_option autoImplicit false

/-! ## Kinds of bodies -/

namespace TypedClient.Api

open TypedClient.Text

/-- The media type is that of forms in several parts, with nothing around it. -/
def IsBareForm (mediaType : String) : Prop :=
  essence mediaType = multipartForm ∧ IsBare mediaType.toList

variable {m : String}

theorem essence_essence (m : String) : essence (essence m) = essence m := by
  rw [essence_of_isBare (isBare_essence m)]
  conv_lhs => rw [essence]
  exact lowerAscii_lowerAscii _

theorem isJson_essence (m : String) : isJson (essence m) = isJson m := by
  rw [isJson, essence_essence, isJson]

theorem essence_multipartForm : essence multipartForm = multipartForm := by decide +kernel

theorem lowerAscii_multipartForm : lowerAscii multipartForm = multipartForm := by decide +kernel

/-- A media type is compared as a whole with that of forms in several parts. -/
theorem sameIgnoringCase_multipartForm :
    sameIgnoringCase m multipartForm = true ↔ IsBareForm m := by
  rw [sameIgnoringCase_iff, lowerAscii_multipartForm]
  constructor
  · intro h
    have hbare : IsBare m.toList := by
      rw [← isBare_lowerAscii_iff, h, ← essence_multipartForm]
      exact isBare_essence multipartForm
    exact ⟨(essence_of_isBare hbare).trans h, hbare⟩
  · rintro ⟨hessence, hbare⟩
    rwa [← essence_of_isBare hbare]

instance (m : String) : Decidable (IsBareForm m) :=
  decidable_of_iff _ sameIgnoringCase_multipartForm

theorem isBareForm_essence : IsBareForm (essence m) ↔ essence m = multipartForm := by
  rw [IsBareForm, essence_essence, and_iff_left (isBare_essence m)]

theorem isBareForm_multipartForm : IsBareForm multipartForm :=
  sameIgnoringCase_multipartForm.1 (sameIgnoringCase_iff.2 rfl)

theorem isJson_of_isForm (h : essence m = multipartForm) : isJson m = false := by
  rw [← isJson_essence, h]
  decide +kernel

theorem classify_eq_json_iff : ContentKind.classify m = .json ↔ isJson m = true := by
  rw [ContentKind.classify]
  split
  · simp_all
  · split
    · simp_all
    · split <;> simp_all

theorem classify_eq_multipart_iff : ContentKind.classify m = .multipart ↔ IsBareForm m := by
  rw [ContentKind.classify, ← sameIgnoringCase_multipartForm]
  split
  · rename_i hjson
    refine iff_of_false nofun fun hform => ?_
    rw [isJson_of_isForm (sameIgnoringCase_multipartForm.1 hform).1] at hjson
    cases hjson
  · split
    · simp_all
    · split <;> simp_all

theorem classify_urlEncodedForm : ContentKind.classify urlEncodedForm ≠ .multipart := by
  decide +kernel

theorem classify_form_iff (several : Bool) :
    ContentKind.classify (if several then multipartForm else urlEncodedForm) = .multipart ↔
      several = true := by
  cases several with
  | true => exact iff_of_true (classify_eq_multipart_iff.2 isBareForm_multipartForm) rfl
  | false => exact iff_of_false classify_urlEncodedForm Bool.false_ne_true

/-- A media type has the kind of its essence, unless it is that of forms in several parts and there
is something around it. -/
theorem classify_eq_classify_essence_iff :
    ContentKind.classify m = ContentKind.classify (essence m) ↔
    (essence m = multipartForm → IsBare m.toList) := by
  constructor
  · intro h hform
    rw [classify_eq_multipart_iff.2 (isBareForm_essence.2 hform), classify_eq_multipart_iff] at h
    exact h.2
  · intro h
    by_cases hform : essence m = multipartForm
    · rw [classify_eq_multipart_iff.2 ⟨hform, h hform⟩,
        classify_eq_multipart_iff.2 (isBareForm_essence.2 hform)]
    · have hwhole : ¬sameIgnoringCase m multipartForm = true :=
        fun hsame => hform (sameIgnoringCase_multipartForm.1 hsame).1
      have hessence : ¬sameIgnoringCase (essence m) multipartForm = true :=
        fun hsame => hform (isBareForm_essence.1 (sameIgnoringCase_multipartForm.1 hsame))
      rw [ContentKind.classify, ContentKind.classify, if_neg hwhole, if_neg hessence,
        isJson_essence, essence_essence]

end TypedClient.Api

/-! ## Bodies of operations -/

namespace TypedClient.OpenApi

open TypedClient.Api TypedClient.Text

variable {d : Document} {version : Version} {op : OperationObject} {requested : Option String}
  {fields : List ParameterObject} {consumed : List String}

/-- JSON comes first, then a form in several parts with nothing around its media type, then whatever
there is. -/
theorem preferred?_eq {α : Type} (content : Dict α) : preferred? content =
    (content.find? (fun entry => isJson entry.1) <|>
      content.find? (fun entry => IsBareForm entry.1) <|> content.head?) := by
  have hjson (entry : String × α) :
      decide (ContentKind.classify entry.1 = .json) = isJson entry.1 := by
    rw [Bool.eq_iff_iff, decide_eq_true_iff, classify_eq_json_iff]
  rw [preferred?]
  simp only [hjson, classify_eq_multipart_iff]

/-- The media type of the request body that an operation declares, if it has any content.  Documents
of version 2 declare none. -/
def requestedMedia? (d : Document) (version : Version) (op : OperationObject) :
    Except GenerationError (Option String) :=
  match version, op.requestBody with
  | .three, some body => do return (preferred? (← d.requestBody body).content).map Prod.fst
  | _, _ => return none

/-- The fields of forms among parameters. -/
def formFields (ps : List ParameterObject) : List ParameterObject :=
  ps.filter (·.place = "formData")

theorem requestedMedia?_eq_none
    (hno : ∀ body, version = .three → op.requestBody = some body → False) :
    requestedMedia? d version op = .ok none := by
  rw [requestedMedia?.eq_def]
  split
  · rename_i body hbody
    exact (hno body rfl hbody).elim
  · rfl

/-- Form fields make a form in several parts: one of them is a file, or such a form is listed among
what is consumed. -/
def InSeveralParts (fields : List ParameterObject) (consumed : List String) : Prop :=
  (∃ p ∈ fields, p.type = some "file") ∨ ∃ mediaType ∈ consumed, IsBareForm mediaType

/-- What is declared asks for a form in several parts: the request body does so by its media type,
and where there is none, form fields may. -/
def AsksForForm (requested : Option String) (fields : List ParameterObject)
    (consumed : List String) : Prop :=
  match requested with
  | some mediaType => IsBareForm mediaType
  | none => fields ≠ [] ∧ InSeveralParts fields consumed

/-- There is a form just if there are fields for it, and they say whether it has several parts. -/
structure IsFormOf (fields : List ParameterObject) (consumed : List String) (form : Option Body) :
    Prop where
  /-- There is one if there are fields. -/
  exists_iff : form.isSome = true ↔ fields ≠ []
  /-- The kind follows the fields and what is consumed. -/
  kind : ∀ body, form = some body →
    (body.content.kind = .multipart ↔ InSeveralParts fields consumed)

/-- The body is of a media type, and its kind is that of the media type. -/
def OfMedia (mediaType : Option String) (content : Option BodyContent) : Prop :=
  content = mediaType.map fun m => ⟨.classify m, m⟩

theorem requestedBody_ofMedia {body : RequestBody} (hbody : op.requestBody = some body) :
    Keeps (fun _ => True) (fun made => ∃ requested, requestedMedia? d .three op = .ok requested ∧
      OfMedia requested (made.map Body.content)) (requestedBody d body) := by
  rw [requestedBody]
  refine (keeps_lift (yields_self _)).bind fun found hfound => ?_
  have hrequested : requestedMedia? d .three op =
      .ok ((preferred? found.content).map Prod.fst) := by
    rw [requestedMedia?.eq_def, hbody]
    dsimp only
    rw [hfound]
    rfl
  cases hpreferred : preferred? found.content with
  | none => exact keeps_pure ⟨_, hrequested, by rw [hpreferred]; rfl⟩
  | some entry =>
    refine (keeps_true _).bind fun type _ => keeps_pure ⟨_, hrequested, ?_⟩
    rw [hpreferred]
    rfl

theorem sortParameter_form {done : List ParameterObject} {sorted : Sorted}
    (h : sorted.form = formFields done ∧ ∀ body ∈ sorted.body, body.content.kind = .json)
    (p : ParameterObject) :
    Keeps (fun _ => True) (fun sorted => sorted.form = formFields (done ++ [p]) ∧
      ∀ body ∈ sorted.body, body.content.kind = .json) (sortParameter d op sorted p) := by
  have hlast : formFields (done ++ [p]) = formFields done ++ formFields [p] :=
    List.filter_append _ _
  have hother (hplace : p.place ≠ "formData") : formFields (done ++ [p]) = formFields done := by
    rw [hlast, formFields, formFields, List.filter_singleton, decide_eq_false hplace]
    exact List.append_nil _
  rw [sortParameter]
  split
  · rename_i location hlocation
    refine (keeps_true _).bind fun type _ => keeps_pure ?_
    rw [hother fun hplace => by rw [hplace] at hlocation; cases hlocation]
    exact h
  · split
    · rename_i hbody
      refine (keeps_true _).bind fun type _ => keeps_pure ⟨?_, ?_⟩
      · rw [hother (by rw [hbody]; decide)]
        exact h.1
      · rintro body ⟨⟩
        rfl
    · split
      · rename_i hplace
        refine keeps_pure ⟨?_, h.2⟩
        change sorted.form ++ [p] = _
        rw [hlast, h.1, formFields, formFields, List.filter_singleton, decide_eq_true hplace]
        rfl
      · rename_i hplace
        rw [hother hplace]
        exact keeps_pure h

theorem formBody_isFormOf {fields : List ParameterObject} (hfields : fields ≠ []) :
    Keeps (fun _ => True) (IsFormOf fields (orElse op.consumes d.consumes))
      (some <$> formBody d op fields) := by
  have hseveral : (fields.any (·.type == some "file") ||
      (orElse op.consumes d.consumes).any (sameIgnoringCase · multipartForm)) = true ↔
      InSeveralParts fields (orElse op.consumes d.consumes) := by
    simp only [InSeveralParts, Bool.or_eq_true, List.any_eq_true, beq_iff_eq,
      sameIgnoringCase_multipartForm]
  have hmade : Keeps (fun _ => True) (fun body => body.content.kind = .multipart ↔
      InSeveralParts fields (orElse op.consumes d.consumes)) (formBody d op fields) := by
    rw [formBody]
    refine (keeps_true _).bind fun type _ => keeps_pure ?_
    dsimp only
    rw [classify_form_iff]
    exact hseveral
  refine hmade.map fun body hbody => ⟨iff_of_true rfl hfields, fun other hother => ?_⟩
  rwa [← Option.some.inj hother]

/-- Which body an operation has, by what is declared for its path and for itself. -/
def Bodied (d : Document) (version : Version) (decl : Declaration) (op : Operation) : Prop :=
  ∃ ofPath ofOperation requested,
    decl.item.parameters.mapM d.parameter = .ok ofPath ∧
    decl.object.parameters.mapM d.parameter = .ok ofOperation ∧
    requestedMedia? d version decl.object = .ok requested ∧
    (requested.isSome = true → OfMedia requested op.content) ∧
    (op.isMultipart = true ↔ AsksForForm requested (formFields (overriding ofPath ofOperation))
      (orElse decl.object.consumes d.consumes))

theorem isMultipart_iff {op : Api.Operation} :
    op.isMultipart = true ↔ ∃ content, op.content = some content ∧ content.kind = .multipart := by
  rw [Operation.isMultipart]
  cases op.content <;> simp

/-- The first of the bodies that there are decides: the requested one, the form, and the one that a
parameter carries. -/
theorem asksForForm_of_bodies {requestedBody form carried : Option Body}
    (hrequested : OfMedia requested (requestedBody.map Body.content))
    (hform : IsFormOf fields consumed form)
    (hcarried : ∀ body ∈ carried, body.content.kind = .json) :
    (∃ content, (requestedBody <|> form <|> carried).map Body.content = some content ∧
      content.kind = .multipart) ↔ AsksForForm requested fields consumed := by
  cases requestedBody with
  | some body =>
    cases requested with
    | none => cases hrequested
    | some m =>
      rw [OfMedia, Option.map_some, Option.map_some, Option.some.injEq] at hrequested
      change (∃ content, some body.content = some content ∧ content.kind = .multipart) ↔
        IsBareForm m
      rw [← classify_eq_multipart_iff, hrequested]
      simp
  | none =>
    cases requested with
    | some m => cases hrequested
    | none =>
      cases form with
      | some body =>
        have hfields := hform.exists_iff.1 rfl
        change (∃ content, some body.content = some content ∧ content.kind = .multipart) ↔ _ ∧ _
        rw [and_iff_right hfields, ← hform.kind body rfl]
        simp
      | none =>
        refine iff_of_false ?_ fun h => by simpa using hform.exists_iff.2 h.1
        rintro ⟨content, hcontent, hmultipart⟩
        obtain ⟨body, hbody, rfl⟩ := Option.map_eq_some_iff.1 hcontent
        rw [hcarried body hbody] at hmultipart
        cases hmultipart

/-- The last steps of building an operation: the bodies are made, and then the responses. -/
theorem finishOperation_bodied {decl : Declaration} {ofPath ofOperation : List ParameterObject}
    (hpath : decl.item.parameters.mapM d.parameter = .ok ofPath)
    (hoperation : decl.object.parameters.mapM d.parameter = .ok ofOperation)
    {carried : Option Body} (hcarried : ∀ body ∈ carried, body.content.kind = .json)
    {makeForm makeRequested : Build (Option Body)}
    (hform : Keeps (fun _ => True) (IsFormOf (formFields (overriding ofPath ofOperation))
      (orElse decl.object.consumes d.consumes)) makeForm)
    (hrequested : Keeps (fun _ => True) (fun made => ∃ requested,
      requestedMedia? d version decl.object = .ok requested ∧
        OfMedia requested (made.map Body.content)) makeRequested) (parameters : List Parameter) :
    Keeps (fun _ => True) (Bodied d version decl) (do
      let form ← makeForm
      let requested ← makeRequested
      let responses ← buildResponses d version decl.object
      return {
        id := ""
        declaredId := decl.object.id
        method := decl.method
        path := decl.path
        summary := decl.object.summary <|> decl.object.description
        parameters := parameters ++ ((requested <|> form <|> carried).map Body.parameter).toList
        content := (requested <|> form <|> carried).map Body.content
        responses }) := by
  refine hform.bind fun form hform => hrequested.bind fun made hmade => ?_
  obtain ⟨requested, hrequested, hmedia⟩ := hmade
  refine (keeps_true _).bind fun responses _ => keeps_pure ?_
  refine ⟨ofPath, ofOperation, requested, hpath, hoperation, hrequested, fun hsome => ?_,
    isMultipart_iff.trans (asksForForm_of_bodies hmedia hform hcarried)⟩
  cases made with
  | some body => exact hmedia
  | none =>
    obtain ⟨m, rfl⟩ := Option.isSome_iff_exists.1 hsome
    cases hmedia

theorem buildOperation_bodied (d : Document) (version : Version) (decl : Declaration) :
    Keeps (fun _ => True) (Bodied d version decl)
      (buildOperation d version decl.path decl.item decl.method decl.object) := by
  rw [buildOperation]
  refine (keeps_lift (yields_mergeParameters d _ _)).bind fun merged hmerged => ?_
  obtain ⟨ofPath, ofOperation, hpath, hoperation, rfl⟩ := hmerged
  have hstart : ([] : List ParameterObject) = formFields [] ∧
      ∀ body ∈ (none : Option Body), body.content.kind = .json :=
    ⟨rfl, fun body h => absurd h (Option.not_mem_none body)⟩
  refine (Keeps.foldlM_prefix (S := fun done sorted => sorted.form = formFields done ∧
    ∀ body ∈ sorted.body, body.content.kind = .json)
    (fun done p sorted hsorted => sortParameter_form hsorted p) _ hstart).bind
      fun sorted hsorted => ?_
  rw [List.nil_append] at hsorted
  obtain ⟨hfields, hcarried⟩ := hsorted
  rw [hfields]
  refine (keeps_true _).bind fun parameters _ => ?_
  have hfinish {makeForm makeRequested : Build (Option Body)} :=
    @finishOperation_bodied d version decl ofPath ofOperation hpath hoperation _ hcarried makeForm
      makeRequested
  have hnone (hempty : (formFields (overriding ofPath ofOperation)).isEmpty = true) :
      Keeps (fun _ => True) (IsFormOf (formFields (overriding ofPath ofOperation))
        (orElse decl.object.consumes d.consumes)) (pure none) :=
    keeps_pure ⟨by simpa using hempty, fun body h => absurd h (Option.not_mem_none body)⟩
  have hform (hfilled : ¬(formFields (overriding ofPath ofOperation)).isEmpty = true) :
      Keeps (fun _ => True) (IsFormOf (formFields (overriding ofPath ofOperation))
        (orElse decl.object.consumes d.consumes))
        (some <$> formBody d decl.object (formFields (overriding ofPath ofOperation))) :=
    formBody_isFormOf fun hnil => hfilled (List.isEmpty_iff.2 hnil)
  split
  · rename_i body hbody
    have hrequested := requestedBody_ofMedia (d := d) hbody
    split
    · exact hfinish (hnone ‹_›) hrequested parameters
    · exact hfinish (hform ‹_›) hrequested parameters
  · rename_i hno
    have hrequested := requestedMedia?_eq_none (d := d) hno
    have hmedia : OfMedia none ((none : Option Body).map Body.content) := rfl
    split
    · exact hfinish (hnone ‹_›) (keeps_pure ⟨none, hrequested, hmedia⟩) parameters
    · exact hfinish (hform ‹_›) (keeps_pure ⟨none, hrequested, hmedia⟩) parameters

end TypedClient.OpenApi

/-! ## Calls without a form -/

namespace TypedClient.Client

open TypedClient.Api TypedClient.Types

variable {op : Operation} {g : TypeGraph} {a : Arguments} {form : Option Form} {input : CallInput}
  {fullRequest : Bool}

/-- Of an operation that takes a form nothing is missing once the other parameters have values. -/
theorem missing?_eq_none_iff_of_multipart (hmultipart : op.isMultipart = true)
    (body : Option Json) :
    missing? g op a body = none ↔ AllGiven op a := by
  refine ⟨given_of_missing?, fun hgiven => List.findSome?_eq_none_iff.2 fun p hp => ?_⟩
  rw [lackOf.eq_def, if_pos hmultipart]
  split
  · rfl
  · rename_i hrequired
    split
    · rfl
    · rename_i hplace
      obtain ⟨v, hv⟩ := hgiven p hp hplace (by simpa using hrequired)
      rw [hv]
      rfl

theorem bodyOf_eq_formRequired_iff (body : Option Json) {id : String} :
    bodyOf g op a form body = .error (.formRequired id) ↔ id = op.id ∧ op.isMultipart = true ∧
      form = none ∧ (op.body?.any (·.required) = true ∨ a.hasBody op = true) := by
  have hwrite (body : Json) : writeBody op body ≠ .error (.formRequired id) := by
    rw [writeBody]
    split
    · rintro ⟨⟩
    · split <;> rintro ⟨⟩
  rw [bodyOf.eq_def, ← Bool.or_eq_true]
  split
  · rename_i hmultipart
    simp
  · rename_i hmultipart
    split
    · rename_i hneeded
      simp [hmultipart, hneeded, eq_comm]
    · rename_i hneeded
      simp [hneeded]
  · rename_i hmultipart
    simp [hmultipart]
  · rename_i hmultipart
    refine iff_of_false ?_ (by simp [hmultipart])
    split
    · split
      · exact hwrite _
      · rintro ⟨⟩
    · rintro ⟨⟩

/-- No step but the making of the body finds that there is no form. -/
theorem bindRead_eq_formRequired_iff {id : String} :
    bindRead op g form a = .error (.formRequired id) ↔
      missing? g op a (bodyArgument op g a) = none ∧ id = op.id ∧ op.isMultipart = true ∧
        form = none ∧ (op.body?.any (·.required) = true ∨ a.hasBody op = true) := by
  rw [← bodyOf_eq_formRequired_iff (g := g) (bodyArgument op g a), bindRead]
  cases missing? g op a (bodyArgument op g a) with
  | some name => simp
  | none =>
    cases bodyOf g op a form (bodyArgument op g a) with
    | error e => simp [Bind.bind, Except.bind]
    | ok body =>
      refine iff_of_false (fun h => ?_) (by simp)
      have hplace : RaisesOnly IsWrongOption (do
          let placed ← placeAll g op a
          return (⟨fillPath op.path placed.path, placed.query, placed.headers, body⟩ : Bound)) :=
        raisesOnly_placeAll.bind fun _ => raisesOnly_ok _
      exact hplace _ h

/-- **A form is demanded** just if the operation takes one, none is passed, every other required
parameter has a value, and the body is required or arguments are left over for it. -/
theorem bind_eq_formRequired_iff (id : String) :
    bind op g input fullRequest = .error (.formRequired id) ↔
      id = op.id ∧ op.isMultipart = true ∧ input.form = none ∧
        ∃ a, Arguments.read fullRequest input.arguments = .ok a ∧ AllGiven op a ∧
          (op.body?.any (·.required) = true ∨ a.hasBody op = true) := by
  rw [bind_eq]
  cases hread : Arguments.read fullRequest input.arguments with
  | error e =>
    refine iff_of_false (fun h => ?_) (by simp)
    cases h
    exact raisesOnly_read _ _ hread
  | ok a =>
    change bindRead op g input.form a = _ ↔ _
    simp only [Except.ok.injEq, exists_eq_left']
    rw [bindRead_eq_formRequired_iff]
    constructor
    · rintro ⟨hmissing, hid, hmultipart, hform, hbody⟩
      exact ⟨hid, hmultipart, hform, given_of_missing? hmissing, hbody⟩
    · rintro ⟨hid, hmultipart, hform, hgiven, hbody⟩
      exact ⟨(missing?_eq_none_iff_of_multipart hmultipart _).2 hgiven, hid, hmultipart,
        hform, hbody⟩

open TypedClient.OpenApi in
/-- **Forms in several parts are recognized** just if nothing stands around their media type.  Every
other media type has the kind of its essence; such a form comes after JSON and before everything
else that a request body lists; the operations of a definition take one just if what is declared for
them asks for one; and then a call has to pass it. -/
theorem forms_of_normalize {document : Json} {kind : Option SchemaKind} {api : Definition}
    (h : normalize document kind = .ok api) (hkind : api.kind = .openApi) :
    (∀ m, ContentKind.classify m = .multipart ↔ IsBareForm m) ∧
    (∀ m, ContentKind.classify m = ContentKind.classify (essence m) ↔
      (essence m = multipartForm → Text.IsBare m.toList)) ∧
    (∀ content : Dict (Option Schema), preferred? content =
      (content.find? (fun entry => isJson entry.1) <|>
        content.find? (fun entry => IsBareForm entry.1) <|> content.head?)) ∧
    (∃ d version, Document.ofJson document = .ok d ∧ d.version = .ok version ∧
      List.Forall₂ (fun decl op => Routed decl op ∧ Bodied d version decl op)
        d.declarations api.operations) ∧
    ∀ op ∈ api.operations, ∀ (input : CallInput) (fullRequest : Bool) (id : String),
      bind op api.types input fullRequest = .error (.formRequired id) ↔
        id = op.id ∧ op.isMultipart = true ∧ input.form = none ∧
          ∃ a, Arguments.read fullRequest input.arguments = .ok a ∧ AllGiven op a ∧
            (op.body?.any (·.required) = true ∨ a.hasBody op = true) := by
  obtain ⟨d, hd, hapi⟩ := exists_document_of_normalize h hkind
  obtain ⟨version, hversion, hforall, -⟩ := forall₂_of_toDefinition
    (buildOperation_bodied d) (fun _ _ _ _ hbodied => hbodied) hapi
  exact ⟨fun _ => classify_eq_multipart_iff, fun _ => classify_eq_classify_essence_iff,
    preferred?_eq, ⟨d, version, hd, hversion, hforall⟩, fun _ _ _ _ => bind_eq_formRequired_iff⟩

/-- A document whose operations both ask for a form, one of them with a boundary. -/
def coversDocument : Json := .object [
  ("openapi", .string "3.0.3"),
  ("paths", .object [
    ("/covers", .object [("post", .object [
      ("operationId", .string "addCover"),
      ("requestBody", .object [
        ("content", .object [
          ("application/xml", .object []),
          ("multipart/form-data", .object [])]),
        ("required", .bool true)])])]),
    ("/drafts", .object [("post", .object [
      ("operationId", .string "addDraft"),
      ("requestBody", .object [
        ("content", .object [("multipart/form-data; boundary=x", .object [])]),
        ("required", .bool true)])])])])]

/-- The definition of the document. -/
def coversApi : Definition :=
  match normalize coversDocument none with
  | .ok api => api
  | .error _ => ⟨.openApi, "", "", [], [], .empty, none⟩

theorem normalize_covers : normalize coversDocument none = .ok coversApi := by
  obtain ⟨api, hapi⟩ := exists_eq_ok (m := normalize coversDocument none) (by decide +kernel)
  rw [coversApi, hapi]

theorem kind_covers : coversApi.kind = .openApi := OpenApi.kind_eq_openApi normalize_covers rfl

/-- The operation without a boundary. -/
def addCover : Operation where
  id := "addCover"
  declaredId := some "addCover"
  method := .post
  path := "/covers"
  summary := none
  parameters := [⟨"body", .body, true, 0, none⟩]
  content := some ⟨.multipart, "multipart/form-data"⟩
  responses := []

theorem mem_covers : addCover ∈ coversApi.operations := by decide +kernel

/-- A call of it without a form is refused. -/
theorem forms_of_normalize_covers :
    normalize coversDocument none = .ok coversApi ∧ coversApi.kind = .openApi ∧
      addCover ∈ coversApi.operations ∧
      bind addCover coversApi.types { } false = .error (.formRequired "addCover") := by
  refine ⟨normalize_covers, kind_covers, mem_covers, ?_⟩
  refine ((forms_of_normalize normalize_covers kind_covers).2.2.2.2 _ mem_covers _ _ _).2 ?_
  exact ⟨rfl, rfl, rfl, .flat [], rfl, by simp [AllGiven, addCover], .inl rfl⟩

/-- The form with a boundary has the essence of a form in several parts and is none. -/
theorem not_classify_eq_classify_essence :
    ¬∀ m, ContentKind.classify m = ContentKind.classify (essence m) := by
  intro hclaim
  have hbare := classify_eq_classify_essence_iff.1 (hclaim "multipart/form-data; boundary=x")
  exact (hbare (by decide +kernel)).1 (by decide +kernel)

end TypedClient.Client
