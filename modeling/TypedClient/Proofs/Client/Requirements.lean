import Mathlib.Data.List.Nodup
import TypedClient.Emit.OperationTypes
import TypedClient.Proofs.Client.Bodies
import TypedClient.Proofs.OpenApi.Shapes

/-!
# What a flat request has to supply

The type of flat requests and the binding of flat arguments each decide what has to be supplied.  In
the type, a parameter and a field of the body that have one name are one member.  Binding gives the
argument of that name to the parameter alone, and goes on to look for the field.

* `mem_flatMembers_of_parameter`, `mem_flatMembers_of_field` and `mem_flatMembers_of_body` say which
  members the type of flat requests has: one for every parameter outside of the body, and one for
  every field of an object body, or for the body, whose name no parameter has taken;
* `Supplies` says that arguments have all members that the type requires;
* `TakenByParameter` says that the body then still lacks something, because a parameter has its
  name;
* `bind_missing_iff` says that binding reports a missing argument for just this reason.
-/

set_option autoImplicit false

/-! ## Members of flat requests -/

namespace TypedClient.Emit

open TypedClient.Api TypedClient.Declaration TypedClient.Types

variable {g : TypeGraph} {style : Style} {op : Operation} {body : Parameter}
  {members added : List (Member TypeExpr)} {member new : Member TypeExpr}

theorem mem_addMember_of_mem (h : member ∈ members) : member ∈ addMember members new := by
  rw [addMember]
  split
  · exact h
  · exact List.mem_append_left _ h

theorem mem_foldl_addMember_of_mem (h : member ∈ members) :
    member ∈ added.foldl addMember members := by
  induction added generalizing members with
  | nil => exact h
  | cons first rest ih => exact ih (mem_addMember_of_mem h)

/-- A member is added unless its name is taken. -/
theorem mem_foldl_addMember (hnodup : (added.map Member.name).Nodup) (hnew : new ∈ added)
    (hfree : ∀ member ∈ members, member.name ≠ new.name) : new ∈ added.foldl addMember members := by
  induction added generalizing members with
  | nil => cases hnew
  | cons first rest ih =>
    obtain ⟨hfirst, hrest⟩ := List.nodup_cons.1 hnodup
    rw [List.foldl_cons]
    rcases List.mem_cons.1 hnew with rfl | hnew
    · refine mem_foldl_addMember_of_mem ?_
      have hany : ¬(members.any (·.name == new.name)) = true := by simpa using hfree
      rw [addMember, if_neg hany]
      exact List.mem_append_right _ List.mem_cons_self
    · refine ih hrest hnew fun member hmember => ?_
      rw [addMember] at hmember
      split at hmember
      · exact hfree member hmember
      · rcases List.mem_append.1 hmember with hmember | hmember
        · exact hfree member hmember
        · rw [List.mem_singleton.1 hmember]
          exact fun heq => hfirst (heq ▸ List.mem_map_of_mem hnew)

/-- A parameter outside of the body has a member. -/
theorem mem_flatMembers_of_parameter {p : Parameter} (hp : p ∈ op.parameters)
    (hplace : p.location ≠ .body) :
    memberOf style p.name p.required (expr g style p.type) ∈ flatMembers g style op := by
  have hmem : memberOf style p.name p.required (expr g style p.type) ∈
      parameterMembers g style (plainParameters op) :=
    List.mem_map_of_mem (List.mem_filter.2 ⟨hp, decide_eq_true hplace⟩)
  rw [flatMembers]
  split
  · exact hmem
  · exact mem_foldl_addMember_of_mem hmem

theorem name_ne_of_mem_parameterMembers {name : String}
    (hfree : ∀ p ∈ op.parameters, p.location ≠ .body → p.name ≠ name) :
    ∀ member ∈ parameterMembers g style (plainParameters op), member.name ≠ name := by
  intro member hmember
  obtain ⟨p, hp, rfl⟩ := List.mem_map.1 hmember
  obtain ⟨hp, hplace⟩ := List.mem_filter.1 hp
  exact hfree p hp (of_decide_eq_true hplace)

/-- A field of an object body has a member, unless a parameter has its name. -/
theorem mem_flatMembers_of_field (hbody : op.body? = some body) {fields : List Field}
    (hfields : bodyFields? g op body = some fields) (hnodup : (fields.map Field.name).Nodup)
    {field : Field} (hfield : field ∈ fields)
    (hfree : ∀ p ∈ op.parameters, p.location ≠ .body → p.name ≠ field.name) :
    memberOf style field.name (field.required && body.required) (expr g style field.type)
      ∈ flatMembers g style op := by
  simp only [flatMembers, hbody, hfields]
  refine mem_foldl_addMember ?_ (List.mem_map_of_mem hfield)
    (name_ne_of_mem_parameterMembers hfree)
  rw [List.map_map]
  exact hnodup

/-- A body that is no object has a member, unless a parameter has its name. -/
theorem mem_flatMembers_of_body (hbody : op.body? = some body)
    (hfields : bodyFields? g op body = none)
    (hfree : ∀ p ∈ op.parameters, p.location ≠ .body → p.name ≠ "body") :
    memberOf style "body" body.required (bodyType g style op body) ∈ flatMembers g style op := by
  simp only [flatMembers, hbody, hfields]
  exact mem_foldl_addMember (List.nodup_singleton _) List.mem_cons_self
    (name_ne_of_mem_parameterMembers hfree)

end TypedClient.Emit

/-! ## What is required -/

namespace TypedClient.Client

open TypedClient.Api TypedClient.Declaration TypedClient.Emit TypedClient.OpenApi TypedClient.Types

variable {op : Operation} {g : TypeGraph} {style : Style} {values : Dict Json} {body : Parameter}

/-- The arguments have a value other than null for every member that the type of flat requests
requires. -/
def Supplies (g : TypeGraph) (style : Style) (op : Operation) (values : Dict Json) : Prop :=
  ∀ member ∈ flatMembers g style op, member.optional = false →
    ∃ value, given? (Dict.get? values member.name) = some value

/-- A required body needs a value of a name that a parameter has taken: that of a required field, or
if it is no object, that of the body. -/
def TakenByParameter (g : TypeGraph) (op : Operation) (values : Dict Json) : Prop :=
  ∃ body, op.body? = some body ∧ body.required = true ∧
    ((∃ fields, g.objectFields? body.type = some fields ∧
        ∃ field ∈ fields, field.required = true ∧ isParameterName op field.name = true) ∨
      (g.objectFields? body.type = none ∧ isParameterName op "body" = true ∧
        given? (Dict.get? values "body") = none))

theorem isParameterName_iff {name : String} :
    isParameterName op name = true ↔ ∃ p ∈ op.parameters, p.location ≠ .body ∧ p.name = name := by
  rw [isParameterName, List.any_eq_true]
  refine exists_congr fun p => and_congr_right fun _ => ?_
  rw [Bool.and_eq_true, decide_eq_true_eq, beq_iff_eq]

theorem name_ne_of_isParameterName {name : String} (h : isParameterName op name = false) :
    ∀ p ∈ op.parameters, p.location ≠ .body → p.name ≠ name := by
  intro p hp hplace heq
  rw [isParameterName_iff.2 ⟨p, hp, hplace, heq⟩] at h
  cases h

/-! ## What is supplied -/

theorem optional_memberOf {name : String} {type : TypeExpr} :
    (memberOf style name true type).optional = false := rfl

/-- Required parameters outside of the body have values. -/
theorem Supplies.allGiven (h : Supplies g style op values) : AllGiven op (.flat values) := by
  intro p hp hplace hrequired
  have hmem : memberOf style p.name p.required (expr g style p.type) ∈ flatMembers g style op :=
    mem_flatMembers_of_parameter hp hplace
  rw [hrequired] at hmem
  exact h _ hmem optional_memberOf

/-- A required field of a required object body has a value, unless a parameter has its name. -/
theorem Supplies.ofField (h : Supplies g style op values) (hmultipart : op.isMultipart = false)
    (hbody : op.body? = some body) (hrequired : body.required = true) {fields : List Field}
    (hfields : g.objectFields? body.type = some fields) (hnodup : (fields.map Field.name).Nodup)
    {field : Field} (hfield : field ∈ fields) (hneeded : field.required = true)
    (hfree : isParameterName op field.name = false) :
    ∃ value, given? (Dict.get? values field.name) = some value := by
  have hbodyFields : bodyFields? g op body = some fields := by
    rw [bodyFields?, hmultipart, if_neg Bool.false_ne_true, hfields]
  have hmem : memberOf style field.name (field.required && body.required) (expr g style field.type)
      ∈ flatMembers g style op :=
    mem_flatMembers_of_field hbody hbodyFields hnodup hfield (name_ne_of_isParameterName hfree)
  rw [hneeded, hrequired] at hmem
  exact h _ hmem optional_memberOf

/-- A required body that is no object has a value, unless a parameter has its name. -/
theorem Supplies.ofBody (h : Supplies g style op values) (hmultipart : op.isMultipart = false)
    (hbody : op.body? = some body) (hrequired : body.required = true)
    (hfields : g.objectFields? body.type = none) (hfree : isParameterName op "body" = false) :
    ∃ value, given? (Dict.get? values "body") = some value := by
  have hbodyFields : bodyFields? g op body = none := by
    rw [bodyFields?, hmultipart, if_neg Bool.false_ne_true, hfields]
  have hmem : memberOf style "body" body.required (bodyType g style op body) ∈
      flatMembers g style op :=
    mem_flatMembers_of_body hbody hbodyFields (name_ne_of_isParameterName hfree)
  rw [hrequired] at hmem
  exact h _ hmem optional_memberOf

/-! ## What the body has -/

/-- An argument is left over unless a parameter has its name. -/
theorem get?_leftOver (op : Operation) (values : Dict Json) (name : String) :
    Dict.get? (Arguments.leftOver op values) name
      = if isParameterName op name then none else Dict.get? values name := by
  cases htaken : isParameterName op name with
  | false =>
    exact Dict.get?_filter (fun name => !isParameterName op name) values (by rw [htaken]; rfl)
  | true =>
    refine Dict.get?_eq_none_of_not_mem_keys fun hmem => ?_
    obtain ⟨entry, hentry, rfl⟩ := List.mem_map.1 hmem
    have hfree := (List.mem_filter.1 hentry).2
    rw [htaken] at hfree
    cases hfree

/-- What is left over has all fields that the body requires just if no parameter has the name of one
and all of them have values. -/
theorem fieldsGiven_leftOver {type : TypeId} {fields : List Field}
    (hfields : g.objectFields? type = some fields) :
    FieldsGiven g type (.object (Arguments.leftOver op values)) ↔
      ∀ field ∈ fields, field.required = true → isParameterName op field.name = false ∧
        ∃ value, given? (Dict.get? values field.name) = some value := by
  have hfield (name : String) :
      (∃ given, Dict.get? (Arguments.leftOver op values) name = some given ∧ given.isNull = false) ↔
        isParameterName op name = false ∧ ∃ value, given? (Dict.get? values name) = some value := by
    rw [get?_leftOver]
    cases isParameterName op name with
    | true => simp
    | false => simp [given?, Option.filter_eq_some_iff]
  simp only [fieldsGiven_object_iff hfields, hfield]

/-- A required body gets what it needs just if no parameter has taken the name of it. -/
theorem exists_bodyArgument_iff (hmultipart : op.isMultipart = false) (hdistinct : DistinctFields g)
    (hvalues : Supplies g style op values) (hbody : op.body? = some body)
    (hrequired : body.required = true) :
    (∃ value, bodyArgument op g (.flat values) = some value ∧ FieldsGiven g body.type value) ↔
      ¬((∃ fields, g.objectFields? body.type = some fields ∧
          ∃ field ∈ fields, field.required = true ∧ isParameterName op field.name = true) ∨
        (g.objectFields? body.type = none ∧ isParameterName op "body" = true ∧
          given? (Dict.get? values "body") = none)) := by
  have hargument : bodyArgument op g (.flat values)
      = Arguments.bodyValue? (.flat values) op g body := by
    rw [bodyArgument, hmultipart, if_neg Bool.false_ne_true, hbody, Option.bind_some]
  rw [hargument, Arguments.bodyValue?]
  cases hfields : g.objectFields? body.type with
  | none =>
    have htrivial (value : Json) : FieldsGiven g body.type value := fun _ _ h => by
      rw [hfields] at h
      cases h
    cases hgiven : given? (Dict.get? values "body") with
    | some value => simp [htrivial]
    | none =>
      cases hfree : isParameterName op "body" with
      | true => simp
      | false =>
        obtain ⟨value, hvalue⟩ := hvalues.ofBody hmultipart hbody hrequired hfields hfree
        rw [hgiven] at hvalue
        cases hvalue
  | some fields =>
    simp only [Option.isNone_some, Bool.false_eq_true, if_false, hrequired, Bool.not_true,
      Bool.and_false, Option.some.injEq, exists_eq_left', fieldsGiven_leftOver hfields,
      reduceCtorEq, false_and, or_false, exists_eq_left', not_exists, not_and, Bool.not_eq_true]
    refine forall₂_congr fun field hfield => forall_congr' fun hneeded => ?_
    refine ⟨And.left, fun hfree => ⟨hfree, ?_⟩⟩
    have hnodup : (fields.map Field.name).Nodup := by
      rw [TypeGraph.objectFields?] at hfields
      split at hfields
      · rename_i found hkind
        cases hfields
        exact hdistinct _ fields hkind
      · cases hfields
    exact hvalues.ofField hmultipart hbody hrequired hfields hnodup hfield hneeded hfree

/-- Something is missing just if a parameter has the name of what the body needs. -/
theorem exists_missing_iff (harranged : Arranged op) (hmultipart : op.isMultipart = false)
    (hdistinct : DistinctFields g) (hvalues : Supplies g style op values) :
    (∃ name, missing? g op (.flat values) (bodyArgument op g (.flat values)) = some name) ↔
      TakenByParameter g op values := by
  rw [← Option.ne_none_iff_exists', ne_eq, missing?_eq_none_iff hmultipart hvalues.allGiven]
  rw [← not_iff_not, not_not]
  constructor
  · rintro hall ⟨body, hbody, hrequired, htaken⟩
    have hfound :=
      hall body (List.mem_of_find?_eq_some hbody) (harranged.body body hbody).place hrequired
    exact (exists_bodyArgument_iff hmultipart hdistinct hvalues hbody hrequired).1 hfound htaken
  · intro hfree q hq hplace hrequired
    have hbody := harranged.eq_body hq hplace
    refine (exists_bodyArgument_iff hmultipart hdistinct hvalues hbody hrequired).2 fun htaken => ?_
    exact hfree ⟨q, hbody, hrequired, htaken⟩

/-- **A flat request that supplies all its members** lacks nothing, unless a parameter has taken the
name of something that the body needs.  Then no arguments will do for a field. -/
theorem bind_missing_iff {document : Json} {kind : Option SchemaKind} {api : Definition}
    (hnormal : normalize document kind = .ok api) (hkind : api.kind = .openApi)
    (hop : op ∈ api.operations) (hmultipart : op.isMultipart = false)
    (hvalues : Supplies api.types style op values) (input : CallInput)
    (hinput : input.arguments = .object values) :
    (∃ id name, bind op api.types input false = .error (.missingParameter id name)) ↔
      TakenByParameter api.types op values := by
  rw [← exists_missing_iff (arranged_of_normalize hnormal hkind op hop) hmultipart
    (distinctFields_of_normalize hnormal hkind) hvalues, exists_comm]
  refine exists_congr fun name => ?_
  simp only [bind_eq_missing_iff, hinput]
  constructor
  · rintro ⟨id, -, a, hread, hmissing⟩
    obtain rfl : Arguments.flat values = a := Except.ok.inj hread
    exact hmissing
  · exact fun hmissing => ⟨op.id, rfl, _, rfl, hmissing⟩

/-! ## A name that is taken -/

/-- The members of the flat request of `updateMovie`: the identifier in the path and the one in the
body are one member. -/
theorem flatMembers_updateMovie :
    (flatMembers moviesApi.types ⟨true, false⟩ updateMovie).map (fun m => (m.name, m.optional))
      = [("dry", true), ("X-Trace", true), ("id", false)] := by decide +kernel

/-- An identifier is all that the type of the flat request of `updateMovie` requires. -/
theorem supplies_updateMovie :
    Supplies moviesApi.types ⟨true, false⟩ updateMovie [("id", .string "7")] := by
  intro member hmember hneeded
  have hmem :
      (member.name, member.optional) ∈ [("dry", true), ("X-Trace", true), ("id", false)] := by
    rw [← flatMembers_updateMovie]
    exact List.mem_map_of_mem hmember
  rw [hneeded] at hmem
  have hname : member.name = "id" := by simpa using hmem
  rw [hname]
  exact ⟨.string "7", rfl⟩

/-- The path takes the identifier, and then the body lacks it. -/
theorem bind_updateMovie_missing :
    normalize moviesDocument none = .ok moviesApi ∧ moviesApi.kind = .openApi ∧
      updateMovie ∈ moviesApi.operations ∧ updateMovie.isMultipart = false ∧
      Supplies moviesApi.types ⟨true, false⟩ updateMovie [("id", .string "7")] ∧
      bind updateMovie moviesApi.types
          ⟨.object [("id", .string "7")], none, .empty, .empty, .empty⟩ false
        = .error (.missingParameter "updateMovie" "id") := by
  refine ⟨normalize_movies, kind_movies, mem_movies, rfl, supplies_updateMovie, ?_⟩
  refine (bind_eq_missing_iff _ _).2 ⟨rfl, .flat [("id", .string "7")], rfl, ?_⟩
  decide +kernel

/-- Nothing else is missing from the flat request of `updateMovie`. -/
theorem bind_missing_iff_updateMovie :
    normalize moviesDocument none = .ok moviesApi ∧ moviesApi.kind = .openApi ∧
      updateMovie ∈ moviesApi.operations ∧ updateMovie.isMultipart = false ∧
      Supplies moviesApi.types ⟨true, false⟩ updateMovie [("id", .string "7")] ∧
      ((∃ id name, bind updateMovie moviesApi.types
          ⟨.object [("id", .string "7")], none, .empty, .empty, .empty⟩ false
            = .error (.missingParameter id name)) ↔
        TakenByParameter moviesApi.types updateMovie [("id", .string "7")]) :=
  ⟨normalize_movies, kind_movies, mem_movies, rfl, supplies_updateMovie,
    bind_missing_iff normalize_movies kind_movies mem_movies rfl supplies_updateMovie _ rfl⟩

end TypedClient.Client
