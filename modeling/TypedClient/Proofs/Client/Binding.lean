import TypedClient.Client.Binding

/-!
# The steps of binding

Binding reads the arguments, looks for what is missing, makes the body and puts the other arguments
in their places, in this order.

* `bind_eq` says so: binding is `bindRead` on the arguments that have been read;
* `AllGiven` says that all required parameters outside of the body have values, and
  `given_of_missing?` that they do if nothing is missing;
* `bindRead_eq_ok_iff` says when it succeeds, and with what;
* `bind_eq_missing_iff` says when it reports a missing argument: no other step ever does.
-/

set_option autoImplicit false

namespace TypedClient.Client

open TypedClient.Api TypedClient.Types

variable {op : Operation} {g : TypeGraph} {a : Arguments} {form : Option Form} {input : CallInput}
  {fullRequest : Bool}

/-! ## Given values -/

theorem given?_eq_self {value : Option Json} (h : ∀ v, value = some v → v.isNull = false) :
    given? value = value := by
  cases value with
  | none => rfl
  | some v => simp [given?, h v rfl]

theorem isNull_of_given? {value : Option Json} {v : Json} (h : given? value = some v) :
    v.isNull = false := by
  have hkept := (Option.filter_eq_some_iff.1 h).2
  simpa using hkept

theorem given?_eq_none_iff {value : Option Json} :
    given? value = none ↔ ¬∃ given, value = some given ∧ given.isNull = false := by
  cases value with
  | none => simp [given?]
  | some v => cases hnull : v.isNull <;> simp [given?, hnull]

/-! ## The steps -/

/-- Steps in a row succeed just if each does. -/
theorem andThen_eq_ok_iff {α β : Type} {step : Outcome α} {next : α → Outcome β} {result : β} :
    step >>= next = .ok result ↔ ∃ made, step = .ok made ∧ next made = .ok result := by
  cases step <;> simp [Bind.bind, Except.bind]

/-- The value for a body that is no form in several parts. -/
def bodyArgument (op : Operation) (g : TypeGraph) (a : Arguments) : Option Json :=
  if op.isMultipart then none else op.body?.bind (a.bodyValue? op g)

/-- Binds arguments that have been read. -/
def bindRead (op : Operation) (g : TypeGraph) (form : Option Form) (a : Arguments) :
    Outcome Bound :=
  match missing? g op a (bodyArgument op g a) with
  | some name => .error (.missingParameter op.id name)
  | none => do
    let body ← bodyOf g op a form (bodyArgument op g a)
    let placed ← placeAll g op a
    return ⟨fillPath op.path placed.path, placed.query, placed.headers, body⟩

/-- Binding reads the arguments and goes on from there. -/
theorem bind_eq (op : Operation) (g : TypeGraph) (input : CallInput) (fullRequest : Bool) :
    bind op g input fullRequest
      = (Arguments.read fullRequest input.arguments).bind (bindRead op g input.form) := by
  rw [bind]
  cases Arguments.read fullRequest input.arguments with
  | error e => rfl
  | ok a =>
    change _ = bindRead op g input.form a
    simp only [Bind.bind, Except.bind, bindRead, bodyArgument]
    cases missing? g op a (if op.isMultipart then none else op.body?.bind (a.bodyValue? op g)) <;>
      rfl

/-! ## Required parameters -/

/-- Every required parameter outside of the body has a value. -/
def AllGiven (op : Operation) (a : Arguments) : Prop :=
  ∀ p ∈ op.parameters, p.location ≠ .body → p.required = true → ∃ v, given? (a.valueOf p) = some v

/-- If nothing is missing, required parameters outside of the body have values. -/
theorem given_of_missing? {body : Option Json} (h : missing? g op a body = none) :
    AllGiven op a := by
  intro p hp hplace hrequired
  rw [missing?, List.findSome?_eq_none_iff] at h
  have hlack := h p hp
  rw [lackOf.eq_def, hrequired, if_neg hplace] at hlack
  cases hgiven : given? (a.valueOf p) with
  | some value => exact ⟨value, rfl⟩
  | none => simp [hgiven] at hlack

/-! ## Success -/

theorem bindRead_eq_ok_iff (r : Bound) :
    bindRead op g form a = .ok r ↔
      missing? g op a (bodyArgument op g a) = none ∧
        ∃ placed, placeAll g op a = .ok placed ∧
          bodyOf g op a form (bodyArgument op g a) = .ok r.body ∧
            r = ⟨fillPath op.path placed.path, placed.query, placed.headers, r.body⟩ := by
  rw [bindRead]
  cases missing? g op a (bodyArgument op g a) with
  | some name => simp
  | none =>
    simp only [andThen_eq_ok_iff, pure, Except.pure, Except.ok.injEq, true_and]
    constructor
    · rintro ⟨body, hbody, placed, hplaced, rfl⟩
      exact ⟨placed, hplaced, hbody, rfl⟩
    · rintro ⟨placed, hplaced, hbody, hr⟩
      exact ⟨_, hbody, placed, hplaced, hr.symm⟩

/-- Binding succeeds when the arguments are read and bound. -/
theorem bind_eq_ok_iff (r : Bound) :
    bind op g input fullRequest = .ok r ↔
      ∃ a, Arguments.read fullRequest input.arguments = .ok a ∧
        bindRead op g input.form a = .ok r := by
  rw [bind_eq]
  cases Arguments.read fullRequest input.arguments with
  | error e => simp [Except.bind]
  | ok a => simp [Except.bind]

/-! ## Errors -/

/-- The errors of a step are of a kind. -/
def RaisesOnly {α : Type} (S : ClientError → Prop) (step : Outcome α) : Prop :=
  ∀ e, step = .error e → S e

/-- The error says that an option or an argument has a wrong value. -/
def IsWrongOption : ClientError → Prop
  | .wrongOption .. => True
  | _ => False

/-- The error says that a form is missing. -/
def IsFormRequired : ClientError → Prop
  | .formRequired _ => True
  | _ => False

variable {S T : ClientError → Prop}

theorem raisesOnly_ok {α : Type} (x : α) : RaisesOnly S (.ok x) := fun _ h => nomatch h

theorem raisesOnly_error {α : Type} {e : ClientError} (h : S e) :
    RaisesOnly S (.error e : Outcome α) := fun _ he => by cases he; exact h

theorem RaisesOnly.mono {α : Type} {step : Outcome α} (h : RaisesOnly S step)
    (hST : ∀ e, S e → T e) :
    RaisesOnly T step := fun e he => hST e (h e he)

theorem RaisesOnly.bind {α β : Type} {step : Outcome α} {next : α → Outcome β}
    (h : RaisesOnly S step) (hnext : ∀ x, RaisesOnly S (next x)) :
    RaisesOnly S (step >>= next) := by
  cases step with
  | ok x => exact hnext x
  | error e => exact raisesOnly_error (h e rfl)

theorem raisesOnly_read (value : Json) :
    RaisesOnly IsWrongOption (Arguments.read fullRequest value) := by
  have hgroup (values : Dict Json) (name : String) :
      RaisesOnly IsWrongOption (groupOf values name) := by
    rw [groupOf]
    split
    · exact raisesOnly_ok _
    · exact raisesOnly_ok _
    · exact raisesOnly_ok _
    · exact raisesOnly_error trivial
  have hsorted (values : Dict Json) : RaisesOnly IsWrongOption (readSorted values) := by
    rw [readSorted]
    split
    · exact raisesOnly_error trivial
    · refine (hgroup values _).bind fun path => (hgroup values _).bind fun query => ?_
      exact (hgroup values _).bind fun headers => raisesOnly_ok _
  have hflat (values : Dict Json) :
      RaisesOnly IsWrongOption (if fullRequest then readSorted values else .ok (.flat values)) := by
    split
    · exact hsorted values
    · exact raisesOnly_ok _
  cases value with
  | null => exact hflat []
  | object values => exact hflat values
  | _ => exact raisesOnly_error trivial

theorem raisesOnly_bodyOf (body : Option Json) :
    RaisesOnly (fun e => IsWrongOption e ∨ IsFormRequired e) (bodyOf g op a form body) := by
  have hwrite (body : Json) :
      RaisesOnly (fun e => IsWrongOption e ∨ IsFormRequired e) (writeBody op body) := by
    rw [writeBody]
    split
    · exact raisesOnly_ok _
    · split
      all_goals first
        | exact raisesOnly_ok _
        | exact raisesOnly_error (.inl trivial)
  rw [bodyOf.eq_def]
  split
  · exact raisesOnly_ok _
  · split
    · exact raisesOnly_error (.inr trivial)
    · exact raisesOnly_ok _
  · exact raisesOnly_error (.inl trivial)
  · split
    · split
      · exact hwrite _
      · exact raisesOnly_error (.inl trivial)
    · exact raisesOnly_ok _

theorem raisesOnly_placeAll : RaisesOnly IsWrongOption (placeAll g op a) := by
  have hplace (placed : Placed) (p : Parameter) :
      RaisesOnly IsWrongOption (place g op a placed p) := by
    rw [place]
    split
    · exact raisesOnly_ok _
    · split
      · exact raisesOnly_error trivial
      · split <;> exact raisesOnly_ok _
  rw [placeAll]
  generalize (⟨[], [], .empty⟩ : Placed) = placed
  induction op.parameters.filter (·.location ≠ .body) generalizing placed with
  | nil => exact raisesOnly_ok _
  | cons p parameters ih =>
    rw [List.foldlM_cons]
    exact (hplace placed p).bind ih

/-- Once nothing is missing, what is wrong is a value or that there is no form. -/
theorem raisesOnly_bindRead (h : missing? g op a (bodyArgument op g a) = none) :
    RaisesOnly (fun e => IsWrongOption e ∨ IsFormRequired e) (bindRead op g form a) := by
  rw [bindRead, h]
  refine (raisesOnly_bodyOf _).bind fun _ => ?_
  exact (raisesOnly_placeAll.mono fun _ => .inl).bind fun _ => raisesOnly_ok _

/-- **A missing argument is reported** exactly when the arguments are read and lack one, whatever
else is wrong with them. -/
theorem bind_eq_missing_iff (id name : String) :
    bind op g input fullRequest = .error (.missingParameter id name) ↔
      id = op.id ∧ ∃ a, Arguments.read fullRequest input.arguments = .ok a ∧
        missing? g op a (bodyArgument op g a) = some name := by
  rw [bind_eq]
  cases hread : Arguments.read fullRequest input.arguments with
  | error e =>
    refine iff_of_false (fun h => ?_) (by simp)
    cases h
    exact raisesOnly_read _ _ hread
  | ok a =>
    change bindRead op g input.form a = _ ↔ _
    cases hmissing : missing? g op a (bodyArgument op g a) with
    | some lacking =>
      simp only [bindRead, hmissing, Except.error.injEq, ClientError.missingParameter.injEq,
        Except.ok.injEq, exists_eq_left', Option.some.injEq]
      exact and_congr_left' eq_comm
    | none =>
      refine iff_of_false (fun h => ?_) (by simp [hmissing])
      rcases raisesOnly_bindRead hmissing _ h with h | h <;> exact h

end TypedClient.Client
