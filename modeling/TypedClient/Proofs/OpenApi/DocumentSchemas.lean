import TypedClient.OpenApi.Document
import TypedClient.Proofs.Yields

/-!
# The schemas of a document

`Document.AllSchemas P` says that `P` holds of all schemas in a document, named or not.  References
to parameters, request bodies and responses lead to parts of the document, so what is said of all
schemas is said of those behind a reference.
-/

set_option autoImplicit false

namespace TypedClient.OpenApi

variable (P : Schema → Prop)

/-- The property holds of the schema of a parameter. -/
def ParameterObject.AllSchemas (p : ParameterObject) : Prop := P p.valueSchema

/-- The property holds of the schemas of media types. -/
def ContentSchemas (content : Dict (Option Schema)) : Prop :=
  ∀ entry ∈ content, ∀ s, entry.2 = some s → P s

/-- The property holds of the schemas of a response. -/
structure ResponseObject.AllSchemas (r : ResponseObject) : Prop where
  /-- It holds of the schemas of media types. -/
  content : ContentSchemas P r.content
  /-- It holds of the schema for all media types. -/
  schema : ∀ s, r.schema = some s → P s

/-- The property holds of the schemas of an operation. -/
structure OperationObject.AllSchemas (op : OperationObject) : Prop where
  /-- It holds of those of the parameters. -/
  parameters : ∀ p ∈ op.parameters, p.AllSchemas P
  /-- It holds of those of the request body. -/
  requestBody : ∀ body, op.requestBody = some body → ContentSchemas P body.content
  /-- It holds of those of the responses. -/
  responses : ∀ entry ∈ op.responses, entry.2.AllSchemas P

/-- The property holds of the schemas of a path. -/
structure PathItem.AllSchemas (item : PathItem) : Prop where
  /-- It holds of those of the operations. -/
  operations : ∀ entry ∈ item.operations, entry.2.AllSchemas P
  /-- It holds of those of the parameters. -/
  parameters : ∀ p ∈ item.parameters, p.AllSchemas P

/-- The property holds of the schemas of components. -/
structure Components.AllSchemas (c : Components) : Prop where
  /-- It holds of the named schemas. -/
  schemas : ∀ entry ∈ c.schemas, P entry.2
  /-- It holds of the schemas of parameters. -/
  parameters : ∀ entry ∈ c.parameters, entry.2.AllSchemas P
  /-- It holds of the schemas of request bodies. -/
  requestBodies : ∀ entry ∈ c.requestBodies, ContentSchemas P entry.2.content
  /-- It holds of the schemas of responses. -/
  responses : ∀ entry ∈ c.responses, entry.2.AllSchemas P

/-- The property holds of all schemas of a document. -/
structure Document.AllSchemas (d : Document) : Prop where
  /-- It holds of those of the paths. -/
  paths : ∀ entry ∈ d.paths, entry.2.AllSchemas P
  /-- It holds of those of the components. -/
  components : ∀ c, d.components = some c → c.AllSchemas P
  /-- It holds of the definitions. -/
  definitions : ∀ entry ∈ d.definitions, P entry.2
  /-- It holds of those of the parameters that references lead to. -/
  parameters : ∀ entry ∈ d.parameters, entry.2.AllSchemas P
  /-- It holds of those of the responses that references lead to. -/
  responses : ∀ entry ∈ d.responses, entry.2.AllSchemas P

variable {P} {d : Document}

/-! ## All schemas -/

section Everything

variable (h : ∀ s, P s)

include h

theorem ParameterObject.allSchemas_of_forall (p : ParameterObject) : p.AllSchemas P :=
  h p.valueSchema

theorem ResponseObject.allSchemas_of_forall (r : ResponseObject) : r.AllSchemas P :=
  ⟨fun _ _ s _ => h s, fun s _ => h s⟩

theorem OperationObject.allSchemas_of_forall (op : OperationObject) : op.AllSchemas P :=
  ⟨fun p _ => p.allSchemas_of_forall h, fun _ _ _ _ s _ => h s,
    fun entry _ => entry.2.allSchemas_of_forall h⟩

theorem PathItem.allSchemas_of_forall (item : PathItem) : item.AllSchemas P :=
  ⟨fun entry _ => entry.2.allSchemas_of_forall h, fun p _ => p.allSchemas_of_forall h⟩

theorem Components.allSchemas_of_forall (c : Components) : c.AllSchemas P :=
  ⟨fun entry _ => h entry.2, fun entry _ => entry.2.allSchemas_of_forall h,
    fun _ _ _ _ s _ => h s, fun entry _ => entry.2.allSchemas_of_forall h⟩

/-- What holds of every schema holds of all schemas of a document. -/
theorem Document.allSchemas_of_forall (d : Document) : d.AllSchemas P :=
  ⟨fun entry _ => entry.2.allSchemas_of_forall h, fun c _ => c.allSchemas_of_forall h,
    fun entry _ => h entry.2, fun entry _ => entry.2.allSchemas_of_forall h,
    fun entry _ => entry.2.allSchemas_of_forall h⟩

end Everything

/-- It holds of the named schemas. -/
theorem Document.AllSchemas.schemas (hd : d.AllSchemas P) : ∀ entry ∈ d.schemas, P entry.2 := by
  rw [Document.schemas]
  split
  · rename_i components hcomponents
    split
    · exact hd.definitions
    · exact (hd.components components hcomponents).schemas
  · exact hd.definitions

/-! ## References -/

/-- What holds of all that a reference can lead to holds of what it leads to. -/
theorem yields_follow {α : Type} {Q : α → Prop} {kind : Section} {find : String → Option α}
    {reference : String} (h : ∀ name found, find name = some found → Q found) :
    Yields (Document.follow kind find reference) Q := by
  rw [Document.follow]
  split
  · rename_i found hfound
    obtain ⟨name, -, hname⟩ := Option.bind_eq_some_iff.1 hfound
    exact yields_ok (h name found hname)
  · exact yields_error _

theorem Document.AllSchemas.parameter (hd : d.AllSchemas P) {p : ParameterObject}
    (hp : p.AllSchemas P) : Yields (d.parameter p) fun p => p.AllSchemas P := by
  rw [Document.parameter]
  split
  · exact yields_ok hp
  · refine yields_follow fun name found hfound => ?_
    simp only [Option.orElse_eq_orElse, Option.orElse_eq_or, Option.or_eq_some_iff] at hfound
    rcases hfound with hfound | ⟨-, hfound⟩
    · obtain ⟨c, hc, hfound⟩ := Option.bind_eq_some_iff.1 hfound
      exact (hd.components c hc).parameters _ (Dict.mem_of_get? hfound)
    · exact hd.parameters _ (Dict.mem_of_get? hfound)

theorem Document.AllSchemas.requestBody (hd : d.AllSchemas P) {body : RequestBody}
    (hbody : ContentSchemas P body.content) :
    Yields (d.requestBody body) fun body => ContentSchemas P body.content := by
  rw [Document.requestBody]
  split
  · exact yields_ok hbody
  · refine yields_follow fun name found hfound => ?_
    obtain ⟨c, hc, hfound⟩ := Option.bind_eq_some_iff.1 hfound
    exact (hd.components c hc).requestBodies _ (Dict.mem_of_get? hfound)

theorem Document.AllSchemas.response (hd : d.AllSchemas P) {r : ResponseObject}
    (hr : r.AllSchemas P) : Yields (d.response r) fun r => r.AllSchemas P := by
  rw [Document.response]
  split
  · exact yields_ok hr
  · refine yields_follow fun name found hfound => ?_
    simp only [Option.orElse_eq_orElse, Option.orElse_eq_or, Option.or_eq_some_iff] at hfound
    rcases hfound with hfound | ⟨-, hfound⟩
    · obtain ⟨c, hc, hfound⟩ := Option.bind_eq_some_iff.1 hfound
      exact (hd.components c hc).responses _ (Dict.mem_of_get? hfound)
    · exact hd.responses _ (Dict.mem_of_get? hfound)

end TypedClient.OpenApi
