import TypedClient.OpenApi.Decode
import TypedClient.Proofs.Json.Decoding
import TypedClient.Proofs.OpenApi.DocumentSchemas
import TypedClient.Proofs.OpenApi.Representation

/-!
# Documents that have been read

The properties of a schema are a dictionary, so reading a schema gives properties with distinct
names, at every depth, and the values that it lists are parts of what is read.  `Schema.Read` says
so of a schema, and `allSchemas_of_ofJson` of all schemas of a document that has been read.
-/

set_option autoImplicit false

namespace TypedClient.OpenApi

open Json

variable {P : Json → Prop}

/-- The names of properties are distinct, and the values that are listed have the property, the
schemas inside of the schema left aside. -/
structure Schema.ReadHead (P : Json → Prop) (s : Schema) : Prop where
  /-- The names are distinct. -/
  distinct : (s.properties.map Prod.fst).Nodup
  /-- The values of an enumeration have the property. -/
  values : ∀ value ∈ s.keywords.values, P value
  /-- A constant has it. -/
  constant : ∀ value, s.keywords.constant = some value → P value

/-- The schema and the schemas inside of it are as they are read, of values with the property. -/
def Schema.Read (P : Json → Prop) : Schema → Prop := Schema.All (Schema.ReadHead P)

/-- The names of properties are distinct, and what is inside of them is read. -/
def ReadProperties (P : Json → Prop) (properties : List (String × Schema)) : Prop :=
  (properties.map Prod.fst).Nodup ∧ ∀ entry ∈ properties, entry.2.Read P

theorem readProperties_nil : ReadProperties P [] := ⟨List.nodup_nil, List.forall_mem_nil _⟩

/-! ## Schemas -/

theorem Schema.yields_decodeKeywords (hP : Inherited P) {whole : Json} {record : Record whole}
    (hrecord : record.AllParts P) : Yields (Schema.decodeKeywords record) fun keywords =>
      (∀ value ∈ keywords.values, P value) ∧ ∀ value, keywords.constant = some value → P value := by
  rw [Schema.decodeKeywords]
  iterate 6 refine (yields_true _).bind fun _ _ => ?_
  refine (hrecord.yields_defaulted (Q := fun values => ∀ value ∈ values, P value) _
    (List.forall_mem_nil _) fun part hpart =>
      yields_list hP (fun _ h => yields_ok h) hpart).bind fun values hvalues => ?_
  refine (hrecord.yields_optional (Q := P) _ fun part hpart => yields_ok hpart).bind
    fun constant hconstant => ?_
  iterate 2 refine (yields_true _).bind fun _ _ => ?_
  exact yields_pure ⟨hvalues, hconstant⟩

/-- The names of the properties are distinct wherever a schema that is read has any. -/
theorem Schema.yields_decode (hP : Inherited P) (value : Json) (h : P value) :
    Yields (Schema.decode value) (Schema.Read P) := by
  rw [Schema.decode]
  refine (yields_fields hP _ _ _ h).bind fun record hrecord => ?_
  refine (Schema.yields_decodeKeywords hP hrecord).bind fun keywords hkeywords => ?_
  have hlist (part : Part value) (hpart : P part.1) : Yields (do
      (← part.1.items).mapM fun item => Schema.decode item.1) fun items =>
        ∀ item ∈ items, Schema.Read P item :=
    (yields_items hP hpart).bind fun items hitems => Yields.mapM fun item hitem =>
      have := item.2
      have := part.2
      Schema.yields_decode hP item.1 (hitems item hitem)
  refine (hrecord.yields_defaulted (Q := ReadProperties P) _ readProperties_nil
    fun part hpart => ?_).bind fun properties hproperties => ?_
  · refine (yields_members hP hpart).bind fun members hmembers => ?_
    refine (Yields.mapM (S := fun entry : String × Schema => entry.2.Read P)
      fun member hmember => ?_).bind fun entries hentries =>
        yields_pure ⟨Dict.nodup_ofList entries, fun entry hentry =>
        hentries entry (Dict.mem_of_mem_ofList hentry)⟩
    have := member.2.2
    have := part.2
    exact (Schema.yields_decode hP member.2.1 (hmembers member hmember)).bind fun schema hschema =>
      yields_pure hschema
  refine (hrecord.yields_optional (Q := Schema.Read P) _ fun part hpart => ?_).bind
    fun items hitems => ?_
  · have := part.2
    exact Schema.yields_decode hP part.1 hpart
  refine (hrecord.yields_optional (Q := fun additional : Additional Schema =>
    ∀ schema, additional = .described schema → schema.Read P) _ fun part hpart => ?_).bind
      fun additional hadditional => ?_
  · have := part.2
    have hdecode := Schema.yields_decode hP part.1 hpart
    dsimp only
    split
    · refine yields_ok fun _ h => ?_
      cases h
    · split
      · rename_i schema hschema
        refine yields_ok fun _ h => ?_
        cases h
        exact hdecode schema hschema
      · exact yields_error _
  have hempty : ∀ item ∈ ([] : List Schema), Schema.Read P item := List.forall_mem_nil _
  refine (hrecord.yields_defaulted _ hempty hlist).bind fun oneOf honeOf => ?_
  refine (hrecord.yields_defaulted _ hempty hlist).bind fun anyOf hanyOf => ?_
  refine (hrecord.yields_defaulted _ hempty hlist).bind fun parts hparts => yields_pure ?_
  refine .intro ⟨hproperties.1, hkeywords.1, hkeywords.2⟩ hproperties.2 hitems
    (fun schema hschema => ?_) ?_ hparts
  · exact hadditional _ hschema schema rfl
  · exact List.forall_mem_append.2 ⟨honeOf, hanyOf⟩
termination_by sizeOf value
decreasing_by all_goals omega

/-! ## Documents -/

theorem yields_decodeContent (hP : Inherited P) (value : Json) (h : P value) :
    Yields (decodeContent value) (ContentSchemas (Schema.Read P)) := by
  rw [decodeContent]
  refine yields_dict (Q := fun found => ∀ s, found = some s → Schema.Read P s) hP
    (fun media h => ?_) h
  refine (yields_fields hP _ _ _ h).bind fun record hrecord => ?_
  exact hrecord.yields_optional _ fun part hpart => Schema.yields_decode hP part.1 hpart

theorem ParameterObject.yields_decode (hP : Inherited P) (value : Json) (h : P value) :
    Yields (ParameterObject.decode value) (ParameterObject.AllSchemas (Schema.Read P)) := by
  rw [ParameterObject.decode]
  refine (yields_fields hP _ _ _ h).bind fun record hrecord => ?_
  iterate 6 refine (yields_true _).bind fun _ _ => ?_
  refine (hrecord.yields_optional _ fun part hpart => Schema.yields_decode hP part.1 hpart).bind
    fun schema hschema => ?_
  refine (yields_true _).bind fun type _ => ?_
  refine (hrecord.yields_optional _ fun part hpart => Schema.yields_decode hP part.1 hpart).bind
    fun items hitems => ?_
  refine (hrecord.yields_defaulted (Q := fun values => ∀ value ∈ values, P value) _
    (List.forall_mem_nil _) fun part hpart =>
      yields_list hP (fun _ h => yields_ok h) hpart).bind fun values hvalues => yields_pure ?_
  rw [ParameterObject.AllSchemas, ParameterObject.valueSchema]
  cases schema with
  | some schema => exact hschema schema rfl
  | none =>
    exact .intro ⟨List.nodup_nil, hvalues, fun _ h => nomatch h⟩ (List.forall_mem_nil _) hitems
      (fun _ h => nomatch h) (List.forall_mem_nil _) (List.forall_mem_nil _)

theorem RequestBody.yields_decode (hP : Inherited P) (value : Json) (h : P value) :
    Yields (RequestBody.decode value) fun body => ContentSchemas (Schema.Read P) body.content := by
  rw [RequestBody.decode]
  refine (yields_fields hP _ _ _ h).bind fun record hrecord => ?_
  iterate 2 refine (yields_true _).bind fun _ _ => ?_
  refine (hrecord.yields_defaulted _ (List.forall_mem_nil _) fun part hpart =>
    yields_decodeContent hP part.1 hpart).bind fun content hcontent => ?_
  exact (yields_true _).bind fun required _ => yields_pure hcontent

theorem ResponseObject.yields_decode (hP : Inherited P) (value : Json) (h : P value) :
    Yields (ResponseObject.decode value) (ResponseObject.AllSchemas (Schema.Read P)) := by
  rw [ResponseObject.decode]
  refine (yields_fields hP _ _ _ h).bind fun record hrecord => ?_
  iterate 2 refine (yields_true _).bind fun _ _ => ?_
  refine (hrecord.yields_defaulted _ (List.forall_mem_nil _) fun part hpart =>
    yields_decodeContent hP part.1 hpart).bind fun content hcontent => ?_
  refine (hrecord.yields_optional _ fun part hpart => Schema.yields_decode hP part.1 hpart).bind
    fun schema hschema => ?_
  exact yields_pure ⟨hcontent, hschema⟩

theorem OperationObject.yields_decode (hP : Inherited P) (value : Json) (h : P value) :
    Yields (OperationObject.decode value) (OperationObject.AllSchemas (Schema.Read P)) := by
  rw [OperationObject.decode]
  refine (yields_fields hP _ _ _ h).bind fun record hrecord => ?_
  iterate 4 refine (yields_true _).bind fun _ _ => ?_
  refine (hrecord.yields_defaulted _ (List.forall_mem_nil _) fun part hpart =>
    yields_list hP (ParameterObject.yields_decode hP) hpart).bind fun parameters hparameters => ?_
  refine (hrecord.yields_optional _ fun part hpart =>
    RequestBody.yields_decode hP part.1 hpart).bind fun requestBody hrequestBody => ?_
  refine (hrecord.yields_defaulted _ (List.forall_mem_nil _) fun part hpart =>
    yields_dict hP (ResponseObject.yields_decode hP) hpart).bind fun responses hresponses => ?_
  iterate 2 refine (yields_true _).bind fun _ _ => ?_
  exact yields_pure ⟨hparameters, hrequestBody, hresponses⟩

theorem PathItem.yields_decode (hP : Inherited P) (value : Json) (h : P value) :
    Yields (PathItem.decode value) (PathItem.AllSchemas (Schema.Read P)) := by
  rw [PathItem.decode]
  refine (yields_fields hP _ _ _ h).bind fun record hrecord => ?_
  refine (Yields.mapM
    (S := fun found : Option (Api.Method × OperationObject) => ∀ entry, found = some entry →
    entry.2.AllSchemas (Schema.Read P)) fun method _ => ?_).bind fun operations hoperations => ?_
  · refine (hrecord.yields_optional _ fun part hpart =>
      OperationObject.yields_decode hP part.1 hpart).bind fun op hop =>
        yields_pure fun entry hentry => ?_
    obtain ⟨found, hfound, rfl⟩ := Option.map_eq_some_iff.1 hentry
    exact hop found hfound
  refine (hrecord.yields_defaulted _ (List.forall_mem_nil _) fun part hpart =>
    yields_list hP (ParameterObject.yields_decode hP) hpart).bind fun parameters hparameters => ?_
  refine yields_pure ⟨fun entry hentry => ?_, hparameters⟩
  obtain ⟨found, hfound, hsome⟩ := List.mem_filterMap.1 hentry
  exact hoperations found hfound entry hsome

theorem Components.yields_decode (hP : Inherited P) (value : Json) (h : P value) :
    Yields (Components.decode value) (Components.AllSchemas (Schema.Read P)) := by
  rw [Components.decode]
  refine (yields_fields hP _ _ _ h).bind fun record hrecord => ?_
  refine (hrecord.yields_defaulted _ (List.forall_mem_nil _) fun part hpart =>
    yields_dict hP (Schema.yields_decode hP) hpart).bind fun schemas hschemas => ?_
  refine (hrecord.yields_defaulted _ (List.forall_mem_nil _) fun part hpart =>
    yields_dict hP (ParameterObject.yields_decode hP) hpart).bind fun parameters hparameters => ?_
  refine (hrecord.yields_defaulted _ (List.forall_mem_nil _) fun part hpart =>
    yields_dict hP (RequestBody.yields_decode hP) hpart).bind fun bodies hbodies => ?_
  refine (hrecord.yields_defaulted _ (List.forall_mem_nil _) fun part hpart =>
    yields_dict hP (ResponseObject.yields_decode hP) hpart).bind fun responses hresponses => ?_
  exact yields_pure ⟨hschemas, hparameters, hbodies, hresponses⟩

theorem Document.yields_decode (hP : Inherited P) (value : Json) (h : P value) :
    Yields (Document.decode value) (Document.AllSchemas (Schema.Read P)) := by
  rw [Document.decode]
  refine (yields_fields hP _ _ _ h).bind fun record hrecord => ?_
  iterate 3 refine (yields_true _).bind fun _ _ => ?_
  refine (hrecord.yields_defaulted _ (List.forall_mem_nil _) fun part hpart =>
    yields_dict hP (PathItem.yields_decode hP) hpart).bind fun paths hpaths => ?_
  refine (hrecord.yields_optional _ fun part hpart => Components.yields_decode hP part.1 hpart).bind
    fun components hcomponents => ?_
  refine (yields_true _).bind fun servers _ => ?_
  refine (hrecord.yields_defaulted _ (List.forall_mem_nil _) fun part hpart =>
    yields_dict hP (Schema.yields_decode hP) hpart).bind fun definitions hdefinitions => ?_
  refine (hrecord.yields_defaulted _ (List.forall_mem_nil _) fun part hpart =>
    yields_dict hP (ParameterObject.yields_decode hP) hpart).bind fun parameters hparameters => ?_
  refine (hrecord.yields_defaulted _ (List.forall_mem_nil _) fun part hpart =>
    yields_dict hP (ResponseObject.yields_decode hP) hpart).bind fun responses hresponses => ?_
  iterate 5 refine (yields_true _).bind fun _ _ => ?_
  exact yields_pure ⟨hpaths, hcomponents, hdefinitions, hparameters, hresponses⟩

theorem withVersion_inherited (hP : Inherited P) {value : Json} (h : P value) (key : String) :
    P (withVersion value key) := by
  rw [withVersion.eq_def]
  split
  · exact hP.insert _ _ _ h
  · exact h

/-- **In a document that has been read** the properties of every schema have distinct names, and the
values it lists have whatever property the document passes on. -/
theorem allSchemas_of_ofJson (hP : Inherited P) {value : Json} (hvalue : P value) {d : Document}
    (h : Document.ofJson value = .ok d) : d.AllSchemas (Schema.Read P) := by
  have hread : Yields (Document.ofJson value) (Document.AllSchemas (Schema.Read P)) := by
    rw [Document.ofJson]
    refine (yields_true _).bind fun _ _ => ?_
    split
    · rename_i document hdocument
      have hversions :=
        withVersion_inherited hP (withVersion_inherited hP hvalue "openapi") "swagger"
      exact yields_pure (Document.yields_decode hP _ hversions document hdocument)
    · exact yields_error _
  exact hread d h

end TypedClient.OpenApi
