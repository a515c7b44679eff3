import TypedClient.Proofs.Client.SortedArguments
import TypedClient.Proofs.Client.Supplied

/-!
# Which missing argument is reported

A call may lack several required arguments, and others may be of the wrong kind.  The caller is told
of the first that is missing, in the order in which the operation declares them, whatever else is
wrong.

* `bodyFor?` is the body that arguments give as they are passed, and `bodyArgument_argumentsOf` says
  that the arguments which are read give the same;
* `Lacks` lists the ways to lack what a parameter requires, and `lackOf_eq_some_iff` says that the
  search for what is missing goes by it;
* `bind_reports_missing_iff` says when binding reports a missing argument, and which.
-/

set_option autoImplicit false

namespace TypedClient.Client

open TypedClient.Api TypedClient.Text TypedClient.Types

/-! ## What arguments give -/

/-- The arguments, side by side, that are no parameters outside the body. -/
def otherMembers (op : Operation) (arguments : Json) : Dict Json :=
  (objectMembers arguments).filter fun entry =>
    op.parameters.all fun p => p.location = .body ∨ p.name ≠ entry.1

/-- The body: the argument `body`, unless it is null.  Side by side, the body of an object type is
made of the arguments that are no parameters; without any there is still a body if it is
required. -/
def bodyFor? (op : Operation) (g : TypeGraph) (fullRequest : Bool) (arguments : Json) :
    Option Json :=
  op.body?.bind fun p =>
    if fullRequest = false ∧ (g.objectFields? p.type).isSome then
      if otherMembers op arguments = [] ∧ p.required = false then none
      else some (.object (otherMembers op arguments))
    else given? (arguments.get? "body")

/-- What is missing for a parameter, by its name. -/
inductive Lacks (g : TypeGraph) (op : Operation) (fullRequest : Bool) (arguments : Json)
    (p : Parameter) : String → Prop
  /-- A required parameter outside the body has no value. -/
  | argument (hrequired : p.required = true) (hplace : p.location ≠ .body)
    (habsent : AbsentOrNull (argumentFor? fullRequest arguments p)) :
    Lacks g op fullRequest arguments p p.name
  /-- There is no required body. -/
  | body (hrequired : p.required = true) (hplace : p.location = .body)
    (hmultipart : op.isMultipart = false) (hnone : bodyFor? op g fullRequest arguments = none) :
    Lacks g op fullRequest arguments p p.name
  /-- In a required body, which is an object, a required field has no value, and it is the first
  that has none. -/
  | field (hrequired : p.required = true) (hplace : p.location = .body)
    (hmultipart : op.isMultipart = false) {members : Dict Json} {before after : List Field}
    {field : Field} (hbody : bodyFor? op g fullRequest arguments = some (.object members))
    (hfields : g.objectFields? p.type = some (before ++ field :: after))
    (hneeded : field.required = true) (habsent : AbsentOrNull (Dict.get? members field.name))
    (hfirst : ∀ other ∈ before, other.required = true →
      ¬AbsentOrNull (Dict.get? members other.name)) :
    Lacks g op fullRequest arguments p field.name

variable {op : Operation} {g : TypeGraph} {fullRequest : Bool} {arguments value : Json}
  {p : Parameter} {name : String}

/-! ## The body -/

theorem leftOver_objectMembers :
    Arguments.leftOver op (objectMembers arguments) = otherMembers op arguments := by
  refine List.filter_congr fun entry _ => ?_
  rw [Bool.eq_iff_iff]
  simp [isParameterName, ← or_iff_not_imp_left]

/-- The arguments that are read give the body that has been passed. -/
theorem bodyArgument_argumentsOf (hmultipart : op.isMultipart = false) :
    bodyArgument op g (argumentsOf fullRequest arguments) =
      bodyFor? op g fullRequest arguments := by
  rw [bodyArgument, hmultipart, bodyFor?, if_neg Bool.false_ne_true]
  refine congrArg _ (funext fun p => ?_)
  cases fullRequest with
  | true => rfl
  | false =>
    simp only [argumentsOf, Bool.false_eq_true, if_false, Arguments.bodyValue?, true_and,
      get?_eq_get?_objectMembers, leftOver_objectMembers]
    cases g.objectFields? p.type <;> simp

/-! ## What is missing -/

/-- The search in a body finds the first required field without a value. -/
theorem missingField?_eq_some_iff :
    missingField? g p value = some name ↔ ∃ members before field after, value = .object members ∧
      g.objectFields? p.type = some (before ++ field :: after) ∧ field.required = true ∧
      AbsentOrNull (Dict.get? members field.name) ∧
      (∀ other ∈ before, other.required = true → ¬AbsentOrNull (Dict.get? members other.name)) ∧
      field.name = name := by
  have hlacks (members : Dict Json) (field : Field) :
      (field.required && (given? (Dict.get? members field.name)).isNone) = true ↔
        field.required = true ∧ AbsentOrNull (Dict.get? members field.name) := by
    rw [Bool.and_eq_true, isNone_given?_iff]
  rw [missingField?.eq_def]
  cases hfields : g.objectFields? p.type with
  | none => simp
  | some fields =>
    cases value with
    | object members =>
      constructor
      · intro hfound
        obtain ⟨field, hfind, hname⟩ := Option.map_eq_some_iff.1 hfound
        obtain ⟨hfield, before, after, rfl, hbefore⟩ := List.find?_eq_some_iff_append.1 hfind
        obtain ⟨hneeded, habsent⟩ := (hlacks members field).1 hfield
        refine ⟨members, before, field, after, rfl, rfl, hneeded, habsent, ?_, hname⟩
        intro other hother hrequired hnone
        have hpassed := hbefore other hother
        rw [(hlacks members other).2 ⟨hrequired, hnone⟩] at hpassed
        cases hpassed
      · rintro ⟨_, before, field, after, hmembers, hsplit, hneeded, habsent, hfirst, hname⟩
        obtain rfl := Json.object.inj hmembers
        obtain rfl := Option.some.inj hsplit
        refine Option.map_eq_some_iff.2 ⟨field, List.find?_eq_some_iff_append.2
          ⟨?_, before, after, rfl, fun other hother => ?_⟩, hname⟩
        · exact (hlacks members field).2 ⟨hneeded, habsent⟩
        · rw [Bool.not_eq_true', ← Bool.not_eq_true, hlacks]
          exact fun hother' => hfirst other hother hother'.1 hother'.2
    | _ => simp

/-- Nothing is missing for optional parameters and for the bodies of forms. -/
theorem not_lacks (h : p.required = true → p.location = .body ∧ op.isMultipart = true) :
    ¬Lacks g op fullRequest arguments p name := by
  intro hlacks
  cases hlacks with
  | argument hrequired hplace => exact hplace (h hrequired).1
  | body hrequired _ hmultipart | field hrequired _ hmultipart =>
    rw [(h hrequired).2] at hmultipart
    cases hmultipart

/-- Outside the body it is the parameter itself that is missing. -/
theorem lacks_iff_absentOrNull (hrequired : p.required = true) (hplace : p.location ≠ .body) :
    Lacks g op fullRequest arguments p name ↔
      AbsentOrNull (argumentFor? fullRequest arguments p) ∧ p.name = name := by
  constructor
  · intro h
    cases h with
    | argument _ _ habsent => exact ⟨habsent, rfl⟩
    | body _ h | field _ h => exact absurd h hplace
  · rintro ⟨habsent, rfl⟩
    exact .argument hrequired hplace habsent

/-- Of a body it is the body, or what the search in it finds. -/
theorem lacks_iff_missingField? (hrequired : p.required = true) (hplace : p.location = .body)
    (hmultipart : op.isMultipart = false) :
    Lacks g op fullRequest arguments p name ↔
      (bodyFor? op g fullRequest arguments = none ∧ p.name = name) ∨
        ∃ body, bodyFor? op g fullRequest arguments = some body ∧
          missingField? g p body = some name := by
  simp only [missingField?_eq_some_iff]
  constructor
  · intro h
    cases h with
    | argument _ h => exact absurd hplace h
    | body _ _ _ hnone => exact .inl ⟨hnone, rfl⟩
    | field _ _ _ hbody hfields hneeded habsent hfirst =>
      exact .inr ⟨_, hbody, _, _, _, _, rfl, hfields, hneeded, habsent, hfirst, rfl⟩
  · rintro (⟨hnone, rfl⟩ | ⟨_, hbody, _, _, _, _, rfl, hfields, hneeded, habsent, hfirst, rfl⟩)
    · exact .body hrequired hplace hmultipart hnone
    · exact .field hrequired hplace hmultipart hbody hfields hneeded habsent hfirst

/-- The search for what is missing goes by `Lacks`. -/
theorem lackOf_eq_some_iff : lackOf g op (argumentsOf fullRequest arguments)
      (bodyArgument op g (argumentsOf fullRequest arguments)) p = some name ↔
    Lacks g op fullRequest arguments p name := by
  rw [lackOf.eq_def]
  cases hrequired : p.required with
  | false => exact iff_of_false (by simp) (not_lacks fun h => by rw [hrequired] at h; cases h)
  | true =>
    rw [Bool.not_true, if_neg Bool.false_ne_true]
    by_cases hplace : p.location = .body
    · rw [if_pos hplace]
      cases hmultipart : op.isMultipart with
      | true => exact iff_of_false (by simp) (not_lacks fun _ => ⟨hplace, hmultipart⟩)
      | false =>
        rw [if_neg Bool.false_ne_true, bodyArgument_argumentsOf hmultipart,
          lacks_iff_missingField? hrequired hplace hmultipart]
        cases bodyFor? op g fullRequest arguments <;> simp
    · rw [if_neg hplace, valueOf_argumentsOf, lacks_iff_absentOrNull hrequired hplace,
        ← isNone_given?_iff]
      split <;> simp_all

/-- What is missing for the first parameter, in the order of the operation, that lacks anything. -/
def FirstLacking (g : TypeGraph) (op : Operation) (fullRequest : Bool) (arguments : Json)
    (name : String) : Prop :=
  ∃ before p after, op.parameters = before ++ p :: after ∧ Lacks g op fullRequest arguments p name ∧
    ∀ other ∈ before, ∀ name, ¬Lacks g op fullRequest arguments other name

theorem missing?_eq_some_iff : missing? g op (argumentsOf fullRequest arguments)
      (bodyArgument op g (argumentsOf fullRequest arguments)) = some name ↔
    FirstLacking g op fullRequest arguments name := by
  rw [missing?, List.findSome?_eq_some_iff]
  refine exists_congr fun before => exists_congr fun p => exists_congr fun after => ?_
  simp only [lackOf_eq_some_iff, Option.eq_none_iff_forall_ne_some, ne_eq]

/-- Something is missing just if there is a parameter that lacks something. -/
theorem exists_firstLacking_iff : (∃ name, FirstLacking g op fullRequest arguments name) ↔
    ∃ p ∈ op.parameters, ∃ name, Lacks g op fullRequest arguments p name := by
  simp only [← missing?_eq_some_iff, ← lackOf_eq_some_iff, ← Option.isSome_iff_exists, missing?,
    List.isSome_findSome?, List.any_eq_true]

/-- **The first missing argument is reported**, and nothing else that may be wrong: binding reports
a missing argument just if a required one is missing, and then it names the first in the order in
which the operation declares them. -/
theorem bind_reports_missing_iff (op : Operation) (g : TypeGraph) (input : CallInput)
    (h : WellShaped fullRequest input.arguments) :
    ((∃ id name, bind op g input fullRequest = .error (.missingParameter id name)) ↔
        ∃ p ∈ op.parameters, ∃ name, Lacks g op fullRequest input.arguments p name) ∧
      ∀ id name, bind op g input fullRequest = .error (.missingParameter id name) ↔
        id = op.id ∧ FirstLacking g op fullRequest input.arguments name := by
  have hbind (id name : String) : bind op g input fullRequest = .error (.missingParameter id name) ↔
      id = op.id ∧ FirstLacking g op fullRequest input.arguments name := by
    rw [bind_eq_missing_iff, ← missing?_eq_some_iff]
    simp [read_eq_ok_iff, h]
  refine ⟨?_, hbind⟩
  rw [← exists_firstLacking_iff]
  simp only [hbind, exists_and_left, exists_eq_left]

/-- A rating, sorted by place, without the identifier of the movie, with a body of the wrong kind
and a form that is not asked for. -/
def ratingInput : CallInput where
  arguments := .object [("body", .object [("score", .string "high")]),
    ("path", .object [("id", .null)])]
  form := some []

/-- A rating, side by side, without its score and with a list for a text. -/
def scorelessInput : CallInput where
  arguments := .object [("dry", .array []), ("id", .string "7"), ("score", .null)]

theorem wellShaped_ratingInput : WellShaped true ratingInput.arguments := by
  have hread : Arguments.read true ratingInput.arguments =
      .ok (argumentsOf true ratingInput.arguments) := rfl
  exact (read_eq_ok_iff.1 hread).1

theorem wellShaped_scorelessInput : WellShaped false scorelessInput.arguments := by
  have hread : Arguments.read false scorelessInput.arguments =
      .ok (argumentsOf false scorelessInput.arguments) := rfl
  exact (read_eq_ok_iff.1 hread).1

/-- The identifier is reported, and where there is one the score. -/
theorem bind_reports_missing_rateMovie :
    (WellShaped true ratingInput.arguments ∧
      (∃ p ∈ rateMovie.parameters, ∃ name,
        Lacks ratingTypes rateMovie true ratingInput.arguments p name) ∧
      bind rateMovie ratingTypes ratingInput true = .error (.missingParameter "rateMovie" "id")) ∧
    WellShaped false scorelessInput.arguments ∧
      bind rateMovie ratingTypes scorelessInput false
        = .error (.missingParameter "rateMovie" "score") ∧
      FirstLacking ratingTypes rateMovie false scorelessInput.arguments "score" := by
  have hlacks : Lacks ratingTypes rateMovie true ratingInput.arguments ⟨"id", .path, true, 0, none⟩
      "id" := .argument rfl Location.noConfusion (.inr rfl)
  obtain ⟨hmissing, hfirst⟩ :=
    bind_reports_missing_iff rateMovie ratingTypes ratingInput wellShaped_ratingInput
  have hbind := (hfirst "rateMovie" "id").2 ⟨rfl, [], _, _, rfl, hlacks, fun _ h => nomatch h⟩
  obtain ⟨-, hscoreless⟩ :=
    bind_reports_missing_iff rateMovie ratingTypes scorelessInput wellShaped_scorelessInput
  exact ⟨⟨wellShaped_ratingInput, hmissing.1 ⟨_, _, hbind⟩, hbind⟩, wellShaped_scorelessInput, rfl,
    ((hscoreless "rateMovie" "score").1 rfl).2⟩

end TypedClient.Client
