import TypedClient.Api.Codec
import TypedClient.Proofs.Api.Operation
import TypedClient.Proofs.Types.Codec

/-!
# Definitions are read back

What is written for a definition is read as the same definition, whatever it holds
(`decode_encode_definition`): as it is written, with members in the order of fields, and in
canonical form, with members in the order of their names.
-/

set_option autoImplicit false

namespace TypedClient.Api

open Json TypedClient.Types

/-- Codes have 16 bits, and digits of ranges eight. -/
def StatusKey.HasBits : StatusKey → Prop
  | .code status => status < 2 ^ 16
  | .range digit => digit < 2 ^ 8
  | .default => True

instance : DecidablePred StatusKey.HasBits
  | .code status => inferInstanceAs (Decidable (status < 2 ^ 16))
  | .range digit => inferInstanceAs (Decidable (digit < 2 ^ 8))
  | .default => .isTrue trivial

/-- Positions of types have 64 bits, and codes of responses 16. -/
structure Operation.Fits (op : Operation) : Prop where
  /-- Positions of types have 64 bits. -/
  types : ∀ id ∈ op.types, id < 2 ^ 64
  /-- Codes have 16 bits. -/
  status : ∀ response ∈ op.responses, response.status.HasBits

instance (op : Operation) : Decidable op.Fits :=
  decidable_of_iff
    ((∀ id ∈ op.types, id < 2 ^ 64) ∧ ∀ response ∈ op.responses, response.status.HasBits)
    ⟨fun h => ⟨h.1, h.2⟩, fun h => ⟨h.types, h.status⟩⟩

/-- All numbers of the definition have the bits that they are read with, and the index of names is
in order. -/
structure Definition.Fits (api : Definition) : Prop where
  /-- The numbers of operations fit. -/
  operations : ∀ op ∈ api.operations, op.Fits
  /-- So do those of the graph. -/
  types : api.types.Fits

instance (api : Definition) : Decidable api.Fits :=
  decidable_of_iff ((∀ op ∈ api.operations, op.Fits) ∧ api.types.Fits)
    ⟨fun h => ⟨h.1, h.2⟩, fun h => ⟨h.operations, h.types⟩⟩

variable {f : Json → Json} {parameter : Parameter} {media : Media} {response : Response}
  {op : Operation} {api : Definition}

/-! ## Fields -/

/-- The fields that are written for a parameter. -/
def Parameter.fields (p : Parameter) : List (String × Option Json) :=
  [("name", some (.string p.name)), ("location", some (.string p.location.text)),
    ("required", some (.bool p.required)), ("ty", some (.ofNat p.type)),
    ("description", p.description.map .string)]

theorem Parameter.encode_eq (p : Parameter) : p.encode = .object (written p.fields) := by
  rw [encode, fields]
  cases p.description <;> rfl

/-- The fields that are written for the content of a body. -/
def BodyContent.fields (content : BodyContent) : List (String × Option Json) :=
  [("kind", some (.string content.kind.text)), ("media_type", some (.string content.mediaType))]

theorem BodyContent.encode_eq (content : BodyContent) :
    content.encode = .object (written content.fields) := rfl

theorem BodyContent.decode_null (content : BodyContent) : decode .null ≠ .ok content := by
  rw [decode]
  nofun

/-- The fields that are written for one kind of content. -/
def Media.fields (media : Media) : List (String × Option Json) :=
  [("media_type", some (.string media.mediaType)), ("ty", media.type.map .ofNat)]

theorem Media.encode_eq (media : Media) : media.encode = .object (written media.fields) := by
  rw [encode, fields]
  cases media.type <;> rfl

/-- The fields that are written for a response. -/
def Response.fields (response : Response) : List (String × Option Json) :=
  [("status", some response.status.encode), ("description", response.description.map .string),
    ("content", some (ofList Media.encode response.content))]

theorem Response.encode_eq (response : Response) :
    response.encode = .object (written response.fields) := by
  rw [encode, fields]
  cases response.description <;> rfl

/-- The fields that are written for an operation. -/
def Operation.fields (op : Operation) : List (String × Option Json) :=
  [("id", some (.string op.id)), ("operation_id", op.declaredId.map .string),
    ("method", some op.method.encode), ("path", some (.string op.path)),
    ("summary", op.summary.map .string),
    ("parameters", some (ofList Parameter.encode op.parameters)),
    ("content_type", op.content.map BodyContent.encode),
    ("responses", some (ofList Response.encode op.responses))]

theorem Operation.encode_eq (op : Operation) : op.encode = .object (written op.fields) := by
  rw [encode, fields]
  cases op.declaredId <;> cases op.summary <;> cases op.content <;> rfl

/-- The fields that are written for the root types. -/
def GraphqlRoots.fields (roots : GraphqlRoots) : List (String × Option Json) :=
  [("query", some (ofOption .string roots.query)),
    ("mutation", some (ofOption .string roots.mutation)),
    ("subscription", some (ofOption .string roots.subscription))]

theorem GraphqlRoots.encode_eq (roots : GraphqlRoots) :
    roots.encode = .object (written roots.fields) := rfl

theorem GraphqlRoots.decode_null (roots : GraphqlRoots) : decode .null ≠ .ok roots := by
  rw [decode]
  nofun

/-- The fields that are written for a definition. -/
def Definition.fields (api : Definition) : List (String × Option Json) :=
  [("kind", some (.string api.kind.text)), ("title", some (.string api.title)),
    ("version", some (.string api.version)), ("servers", some (ofTexts api.servers)),
    ("operations", some (ofList Operation.encode api.operations)), ("types", some api.types.encode),
    ("graphql", api.graphql.map GraphqlRoots.encode)]

theorem Definition.encode_eq (api : Definition) : api.encode = .object (written api.fields) := by
  rw [encode, fields]
  cases api.graphql <;> rfl

/-! ## Reading back -/

section

variable (hf : Arranges f)

include hf

theorem Method.recovers (m : Method) : Recovers f encode decode m := by
  refine hf.recovers_choice text ?_
  cases m <;> rfl

theorem Location.recovers (location : Location) :
    Recovers f (fun location => .string location.text) (choice options) location := by
  refine hf.recovers_choice text ?_
  cases location <;> rfl

theorem ContentKind.recovers (kind : ContentKind) :
    Recovers f (fun kind => .string kind.text) (choice options) kind := by
  refine hf.recovers_choice text ?_
  cases kind <;> rfl

theorem SchemaKind.recovers (kind : SchemaKind) :
    Recovers f (fun kind => .string kind.text) (choice options) kind := by
  refine hf.recovers_choice text ?_
  cases kind <;> rfl

theorem Parameter.recovers (h : parameter.type < 2 ^ 64) : Recovers f encode decode parameter := by
  rw [Recovers, encode_eq]
  obtain ⟨r, hr, hopened⟩ := exists_opened hf "Parameter"
    ["name", "location", "required", "ty", "description"] false parameter.fields rfl (by decide)
  have hname := hopened.required "name" (by simp [fields]) (hf.recovers_text parameter.name)
  have hlocation := hopened.required "location" (by simp [fields])
    (Location.recovers hf parameter.location)
  have hrequired := hopened.required "required" (by simp [fields])
    (hf.recovers_flag parameter.required)
  have htype := hopened.required "ty" (by simp [fields]) (hf.recovers_natural h)
  have hdescription := hopened.optional "description" parameter.description
    (by simp [fields]) text_null fun s _ => hf.recovers_text s
  simp only [decode, hr, hname, hlocation, hrequired, decodeId, htype, hdescription, bind,
    Except.bind]
  rfl

theorem BodyContent.recovers (content : BodyContent) : Recovers f encode decode content := by
  rw [Recovers, encode_eq]
  obtain ⟨r, hr, hopened⟩ := exists_opened hf "BodyContent" ["kind", "media_type"]
    false content.fields rfl (by decide)
  have hkind := hopened.required "kind" (by simp [fields]) (ContentKind.recovers hf content.kind)
  have hmediaType := hopened.required "media_type" (by simp [fields])
    (hf.recovers_text content.mediaType)
  simp only [decode, hr, hkind, hmediaType, bind, Except.bind]
  rfl

theorem StatusKey.recovers {status : StatusKey} (h : status.HasBits) :
    Recovers f encode decode status := by
  cases status with
  | code status =>
    obtain ⟨part, htagged, hpart⟩ := hf.exists_tagged "code" (.ofNat status)
    have hread : natural 16 part.1 = .ok status := hpart ▸ hf.recovers_natural h
    simp only [Recovers, encode, decode, htagged, hread, bind, Except.bind]
    rfl
  | range digit =>
    obtain ⟨part, htagged, hpart⟩ := hf.exists_tagged "range" (.ofNat digit)
    have hread : natural 8 part.1 = .ok digit := hpart ▸ hf.recovers_natural h
    simp only [Recovers, encode, decode, htagged, hread, bind, Except.bind]
    rfl
  | default =>
    rw [Recovers, encode, hf.string]
    rfl

theorem Media.recovers (h : ∀ id ∈ media.type, id < 2 ^ 64) : Recovers f encode decode media := by
  rw [Recovers, encode_eq]
  obtain ⟨r, hr, hopened⟩ := exists_opened hf "Media" ["media_type", "ty"] false media.fields
    rfl (by decide)
  have hmediaType := hopened.required "media_type" (by simp [fields])
    (hf.recovers_text media.mediaType)
  have htype := hopened.optional "ty" media.type (by simp [fields]) decodeId_null
    fun id hid => hf.recovers_natural (h id hid)
  simp only [decode, hr, hmediaType, htype, bind, Except.bind]
  rfl

theorem Response.recovers (hstatus : response.status.HasBits)
    (htypes : ∀ media ∈ response.content, ∀ id ∈ media.type, id < 2 ^ 64) :
    Recovers f encode decode response := by
  rw [Recovers, encode_eq]
  obtain ⟨r, hr, hopened⟩ := exists_opened hf "Response" ["status", "description", "content"]
    false response.fields rfl (by decide)
  have hstatus := hopened.required "status" (by simp [fields]) (StatusKey.recovers hf hstatus)
  have hdescription := hopened.optional "description" response.description
    (by simp [fields]) text_null fun s _ => hf.recovers_text s
  have hcontent := hopened.required "content" (by simp [fields]) (hf.recovers_list
    fun media hmedia => Media.recovers hf (htypes media hmedia))
  simp only [decode, hr, hstatus, hdescription, hcontent, bind, Except.bind]
  rfl

theorem Operation.recovers (h : op.Fits) : Recovers f encode decode op := by
  obtain ⟨hparameterTypes, hresponseTypes⟩ := Operation.forall_mem_types.1 h.types
  rw [Recovers, encode_eq]
  obtain ⟨r, hr, hopened⟩ := exists_opened hf "Operation" fieldNames false op.fields rfl
    (by decide)
  have hid := hopened.required "id" (by simp [fields]) (hf.recovers_text op.id)
  have hdeclaredId := hopened.optional "operation_id" op.declaredId
    (by simp [fields]) text_null fun s _ => hf.recovers_text s
  have hmethod := hopened.required "method" (by simp [fields]) (Method.recovers hf op.method)
  have hpath := hopened.required "path" (by simp [fields]) (hf.recovers_text op.path)
  have hsummary := hopened.optional "summary" op.summary
    (by simp [fields]) text_null fun s _ => hf.recovers_text s
  have hparameters := hopened.required "parameters" (by simp [fields]) (hf.recovers_list
    fun p hp => Parameter.recovers hf (hparameterTypes p hp))
  have hcontent := hopened.optional "content_type" op.content (by simp [fields])
    BodyContent.decode_null fun content _ => BodyContent.recovers hf content
  have hresponses := hopened.required "responses" (by simp [fields]) (hf.recovers_list
    fun response hresponse =>
      Response.recovers hf (h.status response hresponse) fun media hmedia id hid =>
      hresponseTypes response hresponse id (List.mem_filterMap.2 ⟨media, hmedia, hid⟩))
  simp only [decode, hr, hid, hdeclaredId, hmethod, hpath, hsummary, hparameters, hcontent,
    hresponses, bind, Except.bind]
  rfl

theorem GraphqlRoots.recovers (roots : GraphqlRoots) : Recovers f encode decode roots := by
  rw [Recovers, encode_eq]
  obtain ⟨r, hr, hopened⟩ := exists_opened hf "GraphqlRoots"
    ["query", "mutation", "subscription"] false roots.fields rfl (by decide)
  have hquery := hopened.optional_ofOption "query" hf roots.query
    (by simp [fields]) text_null fun s _ => hf.recovers_text s
  have hmutation := hopened.optional_ofOption "mutation" hf roots.mutation
    (by simp [fields]) text_null fun s _ => hf.recovers_text s
  have hsubscription := hopened.optional_ofOption "subscription" hf roots.subscription
    (by simp [fields]) text_null fun s _ => hf.recovers_text s
  simp only [decode, hr, hquery, hmutation, hsubscription, bind, Except.bind]
  rfl

/-- A definition is read back, in whatever order members are. -/
theorem Definition.recovers (h : api.Fits) (hvalues : api.types.KeepsValues f) :
    Recovers f encode decode api := by
  rw [Recovers, encode_eq]
  obtain ⟨r, hr, hopened⟩ := exists_opened hf "Definition"
    ["kind", "title", "version", "servers", "operations", "types", "graphql"] false
    api.fields rfl (by decide)
  have hkind := hopened.required "kind" (by simp [fields]) (SchemaKind.recovers hf api.kind)
  have htitle := hopened.required "title" (by simp [fields]) (hf.recovers_text api.title)
  have hversion := hopened.required "version" (by simp [fields]) (hf.recovers_text api.version)
  have hservers := hopened.required "servers" (a := api.servers) (by simp [fields, ofTexts])
    (hf.recovers_list fun s _ => hf.recovers_text s)
  have hoperations := hopened.required "operations" (by simp [fields]) (hf.recovers_list
    fun op hop => Operation.recovers hf (h.operations op hop))
  have htypes := hopened.required "types" (by simp [fields])
    (TypeGraph.recovers hf h.types hvalues)
  have hgraphql := hopened.optional "graphql" api.graphql (by simp [fields])
    GraphqlRoots.decode_null fun roots _ => GraphqlRoots.recovers hf roots
  simp only [decode, hr, hkind, htitle, hversion, hservers, hoperations, htypes, hgraphql, bind,
    Except.bind]
  rfl

end

/-! ## What is read -/

theorem yields_statusKey (value : Json) : Yields (StatusKey.decode value) StatusKey.HasBits := by
  rw [StatusKey.decode]
  refine (yields_true _).bind fun parts _ => ?_
  split
  · exact (yields_natural 16 _).bind fun _ hstatus => yields_pure hstatus
  · exact (yields_natural 8 _).bind fun _ hdigit => yields_pure hdigit
  · exact yields_pure trivial
  · exact yields_pure trivial
  · exact yields_error _

theorem yields_parameter (value : Json) :
    Yields (Parameter.decode value) fun p => p.type < 2 ^ 64 := by
  rw [Parameter.decode]
  refine (yields_true _).bind fun r _ => ?_
  refine (yields_true _).bind fun _ _ =>
    (yields_true _).bind fun _ _ => (yields_true _).bind fun _ _ => ?_
  refine (r.yields_required "ty" fun part => yields_natural 64 part.1).bind fun _ htype => ?_
  exact (yields_true _).bind fun _ _ => yields_pure htype

theorem yields_response (value : Json) : Yields (Response.decode value) fun response =>
    response.status.HasBits ∧ ∀ id ∈ response.types, id < 2 ^ 64 := by
  have hmedia (value : Json) : Yields (Media.decode value) fun media =>
      ∀ id ∈ media.type, id < 2 ^ 64 := by
    rw [Media.decode]
    refine (yields_true _).bind fun r _ => (yields_true _).bind fun _ _ => ?_
    exact (r.yields_optional "ty" fun part => yields_natural 64 part.1).bind fun _ htype =>
      yields_pure htype
  rw [Response.decode]
  refine (yields_true _).bind fun r _ => ?_
  refine (r.yields_required "status" fun part => yields_statusKey part.1).bind fun _ hstatus => ?_
  refine (yields_true _).bind fun _ _ => ?_
  refine (r.yields_required "content" fun part =>
    yields_list inherited_true (fun value _ => hmedia value) trivial).bind fun content hcontent =>
      yields_pure ⟨hstatus, fun id hid => ?_⟩
  obtain ⟨media, hmem, htype⟩ := List.mem_filterMap.1 hid
  exact hcontent media hmem id htype

theorem yields_operation (value : Json) : Yields (Operation.decode value) Operation.Fits := by
  rw [Operation.decode]
  refine (yields_true _).bind fun r _ => ?_
  refine (yields_true _).bind fun _ _ =>
    (yields_true _).bind fun _ _ => (yields_true _).bind fun _ _ => ?_
  refine (yields_true _).bind fun _ _ => (yields_true _).bind fun _ _ => ?_
  refine (r.yields_required "parameters" fun part => yields_list inherited_true
    (fun value _ => yields_parameter value) trivial).bind fun _ hparameters => ?_
  refine (yields_true _).bind fun _ _ => ?_
  refine (r.yields_required "responses" fun part => yields_list inherited_true
    (fun value _ => yields_response value) trivial).bind fun _ hresponses => yields_pure ?_
  exact ⟨Operation.forall_mem_types.2 ⟨hparameters, fun response hresponse =>
    (hresponses response hresponse).2⟩, fun response hresponse => (hresponses response hresponse).1⟩

/-- The numbers of a definition that is read fit. -/
theorem yields_definition (value : Json) : Yields (Definition.decode value) Definition.Fits := by
  rw [Definition.decode]
  refine (yields_true _).bind fun r _ => ?_
  refine (yields_true _).bind fun _ _ =>
    (yields_true _).bind fun _ _ => (yields_true _).bind fun _ _ => ?_
  refine (yields_true _).bind fun _ _ => ?_
  refine (r.yields_required "operations" fun part => yields_list inherited_true
    (fun value _ => yields_operation value) trivial).bind fun _ hoperations => ?_
  refine (r.yields_required "types" fun part => yields_graph part.1).bind fun _ htypes => ?_
  exact (yields_true _).bind fun _ _ => yields_pure ⟨hoperations, htypes⟩

/-- **Definitions are read back.**  What is written for a definition is read as the same definition,
and so is its canonical form, if the values of enumerations are canonical.  Numbers have to have the
bits that are read of them. -/
theorem decode_encode_definition (h : api.Fits) : Definition.decode api.encode = .ok api ∧
    (api.types.KeepsValues canonical → Definition.decode api.encode.canonical = .ok api) :=
  ⟨Definition.recovers arranges_id h fun _ _ _ _ _ _ => rfl,
    Definition.recovers arranges_canonical h⟩

/-- A definition of a library, with something of everything: places and kinds of content, responses
for a code, for a hundred of codes and for all others, every shape of types, and values of every
kind. -/
def libraryApi : Definition where
  kind := .openApi
  title := "Library"
  version := "1.0"
  servers := ["https://library.example", ""]
  operations := [
    { id := "addBook", declaredId := some "add-book", method := .post,
      path := "/shelves/\x7bshelf\x7d",
      summary := some "Puts a book on a shelf.\nTwice if asked to.",
      parameters := [⟨"shelf", .path, true, 1, some "its number"⟩,
        ⟨"times", .query, false, 1, none⟩, ⟨"X-Trace", .header, false, 0, none⟩,
        ⟨"body", .body, true, 2, none⟩],
      content := some ⟨.formUrlEncoded, "application/x-www-form-urlencoded"⟩,
      responses := [⟨.code 201, some "", [⟨"application/json", some 2⟩, ⟨"text/plain", none⟩]⟩,
        ⟨.range 4, none, []⟩, ⟨.default, some "failed", []⟩] },
    { id := "listBooks", declaredId := none, method := .get, path := "/books", summary := none,
      parameters := [], content := none, responses := [] }]
  types :=
    { nodes := #[⟨none, .primitive .string, none⟩, ⟨none, .primitive .number, some "a number"⟩,
        ⟨some "Book",
          .object [⟨"genre", 3, true, some "of the book"⟩, ⟨"parts", 4, false, none⟩], none⟩,
        ⟨some "Genre", .enumeration [.null, .bool true, .number (.integer (-1)), .string "new",
          .array [.string "enum"], .object [("a", .null), ("b", .object [])]], none⟩,
        ⟨none, .array 2, none⟩, ⟨none, .map 6, none⟩, ⟨none, .union [2, 3, 5], none⟩,
        ⟨none, .unknown, none⟩]
      names := [("Book", 2), ("Genre", 3)] }
  graphql := some ⟨some "Query", none, none⟩

theorem fits_library : libraryApi.Fits := by decide +kernel

theorem keepsValues_library : libraryApi.types.KeepsValues canonical := by
  intro node hnode values hkind value hvalue
  simp only [libraryApi, List.mem_cons, List.not_mem_nil, or_false] at hnode
  rcases hnode with rfl | rfl | rfl | rfl | rfl | rfl | rfl | rfl
  all_goals cases hkind
  simp only [List.mem_cons, List.not_mem_nil, or_false] at hvalue
  rcases hvalue with rfl | rfl | rfl | rfl | rfl | rfl
  all_goals rfl

theorem decode_encode_library : libraryApi.Fits ∧ libraryApi.types.KeepsValues canonical ∧
    Definition.decode libraryApi.encode = .ok libraryApi ∧
      Definition.decode libraryApi.encode.canonical = .ok libraryApi := by
  obtain ⟨hwritten, hcanonical⟩ := decode_encode_definition fits_library
  exact ⟨fits_library, keepsValues_library, hwritten, hcanonical keepsValues_library⟩

/-- The definitions that can be read are those whose numbers fit. -/
theorem exists_decode_iff (api : Definition) :
    (∃ value, Definition.decode value = .ok api) ↔ api.Fits :=
  ⟨fun ⟨value, hvalue⟩ => yields_definition value api hvalue,
    fun h => ⟨_, Definition.recovers arranges_id h fun _ _ _ _ _ _ => rfl⟩⟩

end TypedClient.Api
