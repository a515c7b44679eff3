import Mathlib.Data.List.Nodup
import TypedClient.Proofs.Client.Binding
import TypedClient.Proofs.Dictionaries
import TypedClient.Proofs.Lists

/-!
# Arguments side by side and arguments sorted by place

The same arguments can be given side by side or sorted by place.  `sortedArguments` sorts those that
are given side by side, and `bind_sortedArguments` says that binding comes to the same result for
both, be it a request or an error.

* `valueOf_sorted` says that both have the same argument for every parameter outside of the body;
* `bodyArgument_sorted` and `hasBody_sorted` say that both have the same body.
-/

set_option autoImplicit false

namespace TypedClient.Client

open TypedClient.Api TypedClient.Text TypedClient.Types

/-! ## Sorting -/

/-- The arguments whose names are those of parameters in the given place. -/
def argumentsIn (op : Operation) (location : Location) (values : Dict Json) : Dict Json :=
  values.filter fun entry => (op.parametersIn location).any (·.name == entry.1)

/-- The body among arguments that are given side by side: what is left over, if the body is a form
in several parts or an object, and otherwise the argument `body`. -/
def bodyAmong? (op : Operation) (g : TypeGraph) (values : Dict Json) : Option Json :=
  let rest := Arguments.leftOver op values
  if op.isMultipart then if rest.isEmpty then none else some (.object rest)
  else
    match op.body? with
    | none => none
    | some p =>
      if (g.objectFields? p.type).isSome then
        if rest.isEmpty && !p.required then none else some (.object rest)
      else given? (Dict.get? values "body")

/-- Arguments that are given side by side, sorted by place. -/
def sortedArguments (op : Operation) (g : TypeGraph) (values : Dict Json) : Json :=
  .object ((bodyAmong? op g values).toList.map (fun body => ("body", body)) ++
    [("headers", .object (argumentsIn op .header values)),
      ("path", .object (argumentsIn op .path values)),
      ("query", .object (argumentsIn op .query values))])

variable {op : Operation} {g : TypeGraph} {values : Dict Json} {p : Parameter}

/-- The arguments that `sortedArguments` is read as. -/
def sorted (op : Operation) (g : TypeGraph) (values : Dict Json) : Arguments :=
  .sorted (argumentsIn op .path values) (argumentsIn op .query values)
    (argumentsIn op .header values) (bodyAmong? op g values)

/-- The body among arguments is never null. -/
theorem isNull_of_bodyAmong? {v : Json} (h : bodyAmong? op g values = some v) :
    v.isNull = false := by
  have hobject {b : Bool} {rest : Dict Json}
      (h : (if b then none else some (.object rest)) = some v) :
      v.isNull = false := by
    cases b with
    | true => cases h
    | false =>
      cases h
      rfl
  rw [bodyAmong?] at h
  split at h
  · exact hobject h
  · split at h
    · cases h
    · split at h
      · exact hobject h
      · exact isNull_of_given? h

/-- Sorted arguments are read as such. -/
theorem read_sortedArguments (op : Operation) (g : TypeGraph) (values : Dict Json) :
    Arguments.read true (sortedArguments op g values) = .ok (sorted op g values) := by
  have hgiven : given? (bodyAmong? op g values) = bodyAmong? op g values :=
    given?_eq_self fun _ => isNull_of_bodyAmong?
  rw [sortedArguments, sorted]
  generalize bodyAmong? op g values = body at hgiven
  change readSorted _ = _
  cases body with
  | none => rfl
  | some body =>
    have hread : readSorted (("body", body) ::
        [("headers", .object (argumentsIn op .header values)),
        ("path", .object (argumentsIn op .path values)),
        ("query", .object (argumentsIn op .query values))])
        = .ok (.sorted (argumentsIn op .path values) (argumentsIn op .query values)
          (argumentsIn op .header values) (given? (some body))) := rfl
    rw [hgiven] at hread
    exact hread

/-! ## The same arguments -/

theorem get?_argumentsIn {location : Location} (hp : p ∈ op.parametersIn location) :
    Dict.get? (argumentsIn op location values) p.name = Dict.get? values p.name :=
  Dict.get?_filter (fun name => (op.parametersIn location).any (·.name == name)) values
    (List.any_eq_true.2 ⟨p, hp, beq_self_eq_true _⟩)

theorem mem_parametersIn {location : Location} :
    p ∈ op.parametersIn location ↔ p ∈ op.parameters ∧ p.location = location := by
  rw [Operation.parametersIn, List.mem_filter, decide_eq_true_eq]

/-- No two headers of the operation have one name, in whatever case. -/
def DistinctHeaders (op : Operation) : Prop :=
  ((op.parametersIn .header).map fun p => lowerAscii p.name).Nodup

/-- Among the arguments for distinct headers, one that has the name of a header in some case has its
very name. -/
theorem find?_argumentsIn_header (hheaders : DistinctHeaders op)
    (hp : p ∈ op.parametersIn .header) :
    ((argumentsIn op .header values).find? fun entry =>
      sameIgnoringCase entry.1 p.name).map Prod.snd
      = Dict.get? values p.name := by
  rw [← get?_argumentsIn hp]
  refine Dict.find?_eq_get? (sameIgnoringCase · p.name) fun entry hentry => ?_
  obtain ⟨q, hq, hname⟩ := List.any_eq_true.1 (List.mem_filter.1 hentry).2
  rw [← eq_of_beq hname, sameIgnoringCase, beq_iff_eq]
  constructor
  · intro hlower
    rw [List.inj_on_of_nodup_map hheaders hq hp hlower]
  · intro heq
    rw [heq]

/-- **Sorting changes no argument** of a parameter outside of the body. -/
theorem valueOf_sorted (hheaders : DistinctHeaders op) (hp : p ∈ op.parameters)
    (hplace : p.location ≠ .body) :
    (sorted op g values).valueOf p = (Arguments.flat values).valueOf p := by
  have hin : p ∈ op.parametersIn p.location := mem_parametersIn.2 ⟨hp, rfl⟩
  cases hlocation : p.location with
  | path | query =>
    rw [hlocation] at hin
    simp only [sorted, Arguments.valueOf, hlocation]
    exact get?_argumentsIn hin
  | header =>
    rw [hlocation] at hin
    simp only [sorted, Arguments.valueOf, hlocation]
    exact find?_argumentsIn_header hheaders hin
  | body => exact absurd hlocation hplace

/-! ## The same body -/

theorem bodyArgument_sorted :
    bodyArgument op g (sorted op g values) = bodyArgument op g (.flat values) := by
  rw [bodyArgument, bodyArgument]
  by_cases hmultipart : op.isMultipart = true
  · rw [if_pos hmultipart, if_pos hmultipart]
  · rw [if_neg hmultipart, if_neg hmultipart]
    cases hbody : op.body? with
    | none => rfl
    | some p =>
      simp only [Option.bind_some, sorted, Arguments.bodyValue?, bodyAmong?,
        if_neg hmultipart, hbody]
      cases g.objectFields? p.type <;> rfl

theorem hasBody_sorted (hmultipart : op.isMultipart = true) :
    (sorted op g values).hasBody op = (Arguments.flat values).hasBody op := by
  simp only [sorted, Arguments.hasBody, bodyAmong?, if_pos hmultipart]
  cases (Arguments.leftOver op values).isEmpty <;> rfl

/-! ## The same result -/

theorem missing?_sorted (hheaders : DistinctHeaders op) (body : Option Json) :
    missing? g op (sorted op g values) body = missing? g op (.flat values) body := by
  refine findSome?_congr fun p hp => ?_
  rw [lackOf.eq_def, lackOf.eq_def]
  by_cases hplace : p.location = .body
  · rw [if_pos hplace, if_pos hplace]
  · rw [if_neg hplace, if_neg hplace, valueOf_sorted hheaders hp hplace]

theorem bodyOf_sorted (form : Option Form) (body : Option Json) :
    bodyOf g op (sorted op g values) form body = bodyOf g op (.flat values) form body := by
  rw [bodyOf.eq_def, bodyOf.eq_def]
  cases hmultipart : op.isMultipart with
  | false => cases form <;> rfl
  | true => rw [hasBody_sorted hmultipart]

theorem placeAll_sorted (hheaders : DistinctHeaders op) :
    placeAll g op (sorted op g values) = placeAll g op (.flat values) := by
  refine foldlM_congr (fun p hp placed => ?_) _
  obtain ⟨hmem, hplace⟩ := List.mem_filter.1 hp
  rw [place, place, valueOf_sorted hheaders hmem (of_decide_eq_true hplace)]

/-- **Arguments side by side are bound as the same arguments sorted by place**: to the same request
or with the same error. -/
theorem bind_sortedArguments (op : Operation) (hheaders : DistinctHeaders op) (g : TypeGraph)
    (values : Dict Json) (form : Option Form) (headers incoming telemetry : Headers) :
    bind op g ⟨.object values, form, headers, incoming, telemetry⟩ false
      = bind op g ⟨sortedArguments op g values, form, headers, incoming, telemetry⟩ true := by
  rw [bind_eq, bind_eq, read_sortedArguments]
  change bindRead op g form (.flat values) = bindRead op g form (sorted op g values)
  rw [bindRead, bindRead, bodyArgument_sorted, missing?_sorted hheaders, bodyOf_sorted,
    placeAll_sorted hheaders]

/-- An operation with an argument in every place. -/
def rateMovie : Operation where
  id := "rateMovie"
  declaredId := none
  method := .put
  path := "/movies/{id}/rating"
  summary := none
  parameters := [⟨"id", .path, true, 0, none⟩, ⟨"dry", .query, false, 0, none⟩,
    ⟨"X-Trace", .header, false, 0, none⟩, ⟨"body", .body, true, 2, none⟩]
  content := some ⟨.json, "application/json"⟩
  responses := []

/-- The types of `rateMovie`: the body has a score. -/
def ratingTypes : TypeGraph where
  nodes := #[⟨none, .primitive .string, none⟩, ⟨none, .primitive .number, none⟩,
    ⟨none, .object [⟨"score", 1, true, none⟩], none⟩]
  names := []

/-- A movie is rated. -/
theorem bind_sortedArguments_rateMovie :
    DistinctHeaders rateMovie ∧
      sortedArguments rateMovie ratingTypes
          [("X-Trace", .string "t"), ("id", .string "7"), ("score", .ofInt 9)]
        = .object [("body", .object [("score", .ofInt 9)]),
            ("headers", .object [("X-Trace", .string "t")]),
            ("path", .object [("id", .string "7")]), ("query", .object [])] ∧
      bind rateMovie ratingTypes
          ⟨.object [("X-Trace", .string "t"), ("id", .string "7"), ("score", .ofInt 9)],
            none, .empty, .empty, .empty⟩ false
        = bind rateMovie ratingTypes
          ⟨sortedArguments rateMovie ratingTypes
              [("X-Trace", .string "t"), ("id", .string "7"), ("score", .ofInt 9)], none, .empty,
            .empty, .empty⟩ true :=
  have hheaders : DistinctHeaders rateMovie := List.nodup_singleton _
  ⟨hheaders, rfl,
    bind_sortedArguments rateMovie hheaders ratingTypes _ none .empty .empty .empty⟩

end TypedClient.Client
