import TypedClient.Proofs.Client.Placement

/-!
# Which bodies are accepted

A body is looked at twice.  Before it is checked against its type, the required fields of an object
are looked for, and there a field that is null counts as missing, whatever its type admits.

* `FieldsGiven` is what the first look asks for (`missingField?_eq_none_iff`);
* `bind_isOk_iff` says which bodies are accepted, next to other arguments that are as they should
  be;
* `fieldsGiven_iff_of_check` compares both looks: of the values that belong to the type, the first
  look refuses those in which a required field is null, and no others.  This supposes that `check`
  gets to the object at all, through at most 128 aliases.
-/

set_option autoImplicit false

namespace TypedClient.Client

open TypedClient.Api TypedClient.Types

variable {op : Operation} {g : TypeGraph} {a : Arguments} {input : CallInput} {fullRequest : Bool}
  {p : Parameter} {type : TypeId} {value : Json}

/-! ## Required fields -/

/-- In an object of an object type, every required field has a value that is not null. -/
def FieldsGiven (g : TypeGraph) (type : TypeId) (value : Json) : Prop :=
  ∀ fields members, g.objectFields? type = some fields → value = .object members →
    ∀ field ∈ fields, field.required = true →
      ∃ given, Dict.get? members field.name = some given ∧ given.isNull = false

/-- For an object and the fields of its type. -/
theorem fieldsGiven_object_iff {fields : List Field} {members : Dict Json}
    (hfields : g.objectFields? type = some fields) :
    FieldsGiven g type (.object members) ↔ ∀ field ∈ fields, field.required = true →
      ∃ given, Dict.get? members field.name = some given ∧ given.isNull = false := by
  constructor
  · intro hgiven
    exact hgiven fields members hfields rfl
  · intro hgiven others _ hothers hmembers
    rw [hfields, Option.some.injEq] at hothers
    rw [Json.object.injEq] at hmembers
    rwa [← hothers, ← hmembers]

/-- No field is missing just if all required ones are given. -/
theorem missingField?_eq_none_iff :
    missingField? g p value = none ↔ FieldsGiven g p.type value := by
  rw [missingField?.eq_def]
  cases hfields : g.objectFields? p.type with
  | none => simp [FieldsGiven, hfields]
  | some fields =>
    cases value with
    | object members =>
      rw [fieldsGiven_object_iff hfields]
      simp only [Option.map_eq_none_iff, List.find?_eq_none, Bool.and_eq_true, not_and,
        Option.isNone_iff_eq_none, given?_eq_none_iff, Classical.not_not]
    | _ => simp [FieldsGiven]

/-! ## Accepted bodies -/

/-- The body is there if it is required, belongs to its type and has all required fields. -/
def BodyAccepted (g : TypeGraph) (op : Operation) (p : Parameter) : Option Json → Prop
  | none => ∀ q ∈ op.parameters, q.location = .body → q.required = false
  | some value => check g p.type value = .ok () ∧
      ∀ q ∈ op.parameters, q.location = .body → q.required = true → FieldsGiven g q.type value

/-- The content of the body is JSON, or not declared. -/
def JsonContent (op : Operation) : Prop :=
  ∀ content, op.content = some content → content.kind = .json

theorem JsonContent.isMultipart (hjson : JsonContent op) : op.isMultipart = false := by
  rw [Operation.isMultipart.eq_def]
  cases hcontent : op.content with
  | none => rfl
  | some content => simp [hjson content hcontent]

theorem JsonContent.writeBody (hjson : JsonContent op) (value : Json) :
    writeBody op value = .ok (.json value) := by
  rw [Client.writeBody.eq_def]
  cases hcontent : op.content with
  | none => rfl
  | some content => simp [hjson content hcontent]

/-- With all other arguments given, only the body can be missing, or a field of it. -/
theorem missing?_eq_none_iff (hmultipart : op.isMultipart = false) (hgiven : AllGiven op a)
    (body : Option Json) :
    missing? g op a body = none ↔ ∀ q ∈ op.parameters, q.location = .body → q.required = true →
      ∃ value, body = some value ∧ FieldsGiven g q.type value := by
  rw [missing?, List.findSome?_eq_none_iff]
  refine forall₂_congr fun q hq => ?_
  rw [lackOf.eq_def]
  cases hrequired : q.required with
  | false => simp
  | true =>
    by_cases hplace : q.location = .body
    · cases body with
      | none => simp [hplace, hmultipart]
      | some value => simp [hplace, hmultipart, missingField?_eq_none_iff]
    · obtain ⟨v, hv⟩ := hgiven q hq hplace hrequired
      simp [hplace, hv]

/-- The body of a request is made just if it belongs to its type. -/
theorem bodyOf_isOk_iff (hjson : JsonContent op) (hbody : op.body? = some p) (body : Option Json) :
    (∃ made, bodyOf g op a none body = .ok made) ↔
      ∀ value, body = some value → check g p.type value = .ok () := by
  rw [bodyOf.eq_def]
  simp only [hjson.isMultipart, hbody]
  cases body with
  | none => simp
  | some value =>
    cases hcheck : check g p.type value with
    | ok u => simp [hcheck, hjson.writeBody]
    | error e => simp [hcheck]

theorem bodyArgument_eq (hjson : JsonContent op) (hbody : op.body? = some p) :
    bodyArgument op g a = a.bodyValue? op g p := by
  simp [bodyArgument, hjson.isMultipart, hbody]

/-- The arguments that have been read are bound just if the body is accepted. -/
theorem bindRead_isOk_iff (hjson : JsonContent op) (hbody : op.body? = some p)
    (hgiven : AllGiven op a) (hfit : AllFit g op a) :
    (∃ r, bindRead op g none a = .ok r) ↔ BodyAccepted g op p (a.bodyValue? op g p) := by
  have hsplit : (∃ r, bindRead op g none a = .ok r) ↔
      missing? g op a (a.bodyValue? op g p) = none ∧
        ∃ made, bodyOf g op a none (a.bodyValue? op g p) = .ok made := by
    simp only [bindRead_eq_ok_iff, bodyArgument_eq hjson hbody, placeAll_eq_ok_iff]
    constructor
    · rintro ⟨r, hmissing, _, -, hmade, -⟩
      exact ⟨hmissing, r.body, hmade⟩
    · rintro ⟨hmissing, made, hmade⟩
      exact ⟨⟨_, _, _, made⟩, hmissing, _, ⟨hfit, rfl⟩, hmade, rfl⟩
  rw [hsplit, missing?_eq_none_iff hjson.isMultipart hgiven, bodyOf_isOk_iff hjson hbody]
  cases a.bodyValue? op g p with
  | none => simp [BodyAccepted]
  | some value => simp [BodyAccepted, and_comm]

/-- **Which bodies are accepted.**  Next to other arguments that are as they should be, binding
succeeds just if there is a body that belongs to its type and in which no required field is missing
or null, or if there is none and it is not required. -/
theorem bind_isOk_iff (hjson : JsonContent op) (hbody : op.body? = some p)
    (hform : input.form = none)
    (hothers : ∀ a, Arguments.read fullRequest input.arguments = .ok a →
      AllGiven op a ∧ AllFit g op a) :
    (∃ r, bind op g input fullRequest = .ok r) ↔
      ∃ a, Arguments.read fullRequest input.arguments = .ok a ∧
        BodyAccepted g op p (a.bodyValue? op g p) := by
  simp only [bind_eq_ok_iff, hform]
  rw [exists_comm]
  refine exists_congr fun a => ?_
  rw [exists_and_left, and_congr_right_iff]
  intro hread
  obtain ⟨hgiven, hfit⟩ := hothers a hread
  exact bindRead_isOk_iff hjson hbody hgiven hfit

/-- An operation whose only argument is its body. -/
def addNote : Operation where
  id := "addNote"
  declaredId := some "addNote"
  method := .post
  path := "/notes"
  summary := none
  parameters := [⟨"body", .body, true, 3, none⟩]
  content := some ⟨.json, "application/json"⟩
  responses := []

/-- The types of `addNote`: the text of a note is required and may be null. -/
def noteTypes : TypeGraph where
  nodes := #[⟨none, .primitive .string, none⟩, ⟨none, .primitive .null, none⟩,
    ⟨none, .union [0, 1], none⟩, ⟨none, .object [⟨"text", 2, true, none⟩], none⟩]
  names := []

/-- Besides the body, `addNote` asks for nothing. -/
theorem othersGiven_addNote (arguments : Json) :
    ∀ a, Arguments.read false arguments = .ok a →
      AllGiven addNote a ∧ AllFit noteTypes addNote a := by
  intro a _
  constructor
  · intro p hp hplace
    rw [List.mem_singleton.1 hp] at hplace
    exact absurd rfl hplace
  · intro p hp hplace
    rw [List.mem_singleton.1 hp] at hplace
    exact absurd rfl hplace

theorem jsonContent_addNote : JsonContent addNote := by
  intro content hcontent
  rw [← Option.some.inj hcontent]

/-- A note without a text belongs to the type of notes, but it is not accepted. -/
theorem not_bind_addNote_null :
    JsonContent addNote ∧ addNote.body? = some ⟨"body", .body, true, 3, none⟩ ∧
      (∀ a, Arguments.read false (.object [("text", .null)]) = .ok a →
        AllGiven addNote a ∧ AllFit noteTypes addNote a) ∧
      Arguments.read false (.object [("text", .null)]) = .ok (.flat [("text", .null)]) ∧
      Arguments.bodyValue? (.flat [("text", .null)]) addNote noteTypes
          ⟨"body", .body, true, 3, none⟩ = some (.object [("text", .null)]) ∧
      check noteTypes 3 (.object [("text", .null)]) = .ok () ∧
      ¬∃ r, bind addNote noteTypes ⟨.object [("text", .null)], none, .empty, .empty, .empty⟩ false
        = .ok r := by
  refine ⟨jsonContent_addNote, rfl, othersGiven_addNote _, rfl, rfl, rfl, ?_⟩
  rintro ⟨r, hr⟩
  have hmissing : bind addNote noteTypes
      ⟨.object [("text", .null)], none, .empty, .empty, .empty⟩ false
        = .error (.missingParameter "addNote" "text") := rfl
  rw [hmissing] at hr
  cases hr

/-- A note with a text is accepted. -/
theorem bind_isOk_iff_addNote :
    (∃ r, bind addNote noteTypes ⟨.object [("text", .string "milk")], none, .empty, .empty, .empty⟩
        false = .ok r) ↔
      ∃ a, Arguments.read false (.object [("text", .string "milk")]) = .ok a ∧
        BodyAccepted noteTypes addNote ⟨"body", .body, true, 3, none⟩
          (a.bodyValue? addNote noteTypes ⟨"body", .body, true, 3, none⟩) :=
  bind_isOk_iff jsonContent_addNote rfl rfl (othersGiven_addNote _)

/-! ## The two looks compared -/

theorem checkWithin_alias {steps : Nat} {id member : TypeId} (h : g.kind id = .union [member]) :
    checkWithin g (steps + 1) id value = checkWithin g steps member value := by
  simp [checkWithin, h, checkUnion]

/-- A value that belongs to an alias belongs to what it stands for, as far as the steps go. -/
theorem checkWithin_resolveWithin {n : Nat} : ∀ {steps : Nat} {id : TypeId}, n < steps →
    checkWithin g steps id value = .ok () →
      ∃ left, checkWithin g (left + 1) (g.resolveWithin id n) value = .ok () := by
  induction n with
  | zero =>
    intro steps id hsteps hcheck
    obtain ⟨left, rfl⟩ := Nat.exists_eq_add_of_lt hsteps
    exact ⟨_, by simpa [TypeGraph.resolveWithin] using hcheck⟩
  | succ n ih =>
    intro steps id hsteps hcheck
    obtain ⟨left, rfl⟩ := Nat.exists_eq_add_of_lt hsteps
    rw [TypeGraph.resolveWithin]
    split
    · rename_i member hkind
      rw [checkWithin_alias hkind] at hcheck
      exact ih (by omega) hcheck
    · exact ⟨_, hcheck⟩

theorem contains_of_checkFields {check : TypeId → Json → Checked} {members : Dict Json}
    {fields : List Field} (h : checkFields check members fields = .ok ()) :
    ∀ field ∈ fields, field.required = true → ∃ v, Dict.get? members field.name = some v := by
  induction fields with
  | nil => simp
  | cons field rest ih =>
    rw [checkFields] at h
    cases hvalue : Dict.get? members field.name with
    | some v =>
      simp only [hvalue] at h
      refine List.forall_mem_cons.2 ⟨fun _ => ⟨v, hvalue⟩, ih ?_⟩
      cases hunder : Checked.under (.member field.name) (check field.type v) with
      | ok u =>
        rw [hunder] at h
        exact h
      | error e => simp [hunder, Bind.bind, Except.bind] at h
    | none =>
      simp only [hvalue] at h
      cases hrequired : field.required with
      | true => simp [hrequired, problemHere, Bind.bind, Except.bind] at h
      | false =>
        refine List.forall_mem_cons.2 ⟨fun h => ?_, ih ?_⟩
        · rw [hrequired] at h
          cases h
        · rw [hrequired, if_neg Bool.false_ne_true] at h
          exact h

/-- A required field of an object is null. -/
def NullRequired (g : TypeGraph) (type : TypeId) (value : Json) : Prop :=
  ∃ fields members, g.objectFields? type = some fields ∧ value = .object members ∧
    ∃ field ∈ fields, field.required = true ∧ Dict.get? members field.name = some .null

/-- Of the values that belong to a type, those lack a required field in which one is null. -/
theorem fieldsGiven_iff_of_check {n : Nat} (hn : n ≤ depthLimit)
    (hresolve : g.resolve type = g.resolveWithin type n) (hcheck : check g type value = .ok ()) :
    FieldsGiven g type value ↔ ¬NullRequired g type value := by
  constructor
  · rintro hgiven ⟨fields, members, hfields, rfl, field, hfield, hrequired, hnull⟩
    obtain ⟨v, hv, hkept⟩ := hgiven fields members hfields rfl field hfield hrequired
    rw [hnull] at hv
    cases hv
    cases hkept
  · rintro hnull fields members hfields rfl field hfield hrequired
    have hkind : g.kind (g.resolveWithin type n) = .object fields := by
      rw [← hresolve]
      rw [TypeGraph.objectFields?] at hfields
      split at hfields
      · rename_i found hkind
        rw [hkind, Option.some.inj hfields]
      · cases hfields
    obtain ⟨left, hleft⟩ := checkWithin_resolveWithin (Nat.lt_succ_of_le hn) hcheck
    simp only [checkWithin, hkind] at hleft
    obtain ⟨v, hv⟩ := contains_of_checkFields hleft field hfield hrequired
    refine ⟨v, hv, Bool.eq_false_iff.2 fun hisNull => ?_⟩
    cases v with
    | null => exact hnull ⟨fields, members, hfields, rfl, field, hfield, hrequired, hv⟩
    | _ => cases hisNull

end TypedClient.Client
