import TypedClient.Proofs.Client.Binding

/-!
# What a caller supplies

Arguments are read in one step and looked up in others.  Here it is said of the value that a caller
passes what it supplies for each parameter, without reading it first.

* `WellShaped` says which arguments can be read at all, and `read_eq_ok_iff` that these and no
  others are read, as `argumentsOf`;
* `argumentFor?` is what arguments give for a parameter outside the body, and `Supplied` says that
  it is a value other than null;
* `gives_argumentsOf` says that the arguments which are read give the same.
-/

set_option autoImplicit false

namespace TypedClient.Client

open TypedClient.Api TypedClient.Text

/-! ## Arguments as they are passed -/

/-- The members of an object; other values have none. -/
def objectMembers : Json → Dict Json
  | .object members => members
  | _ => []

/-- The arguments in one of the groups of arguments sorted by place. -/
def groupMembers (arguments : Json) (group : String) : Dict Json :=
  ((arguments.get? group).map objectMembers).getD []

/-- The argument for a parameter outside the body: the one of its name, or the one of its name in
the group of its place.  Names of headers are then the same in either case. -/
def argumentFor? (fullRequest : Bool) (arguments : Json) (p : Parameter) : Option Json :=
  match fullRequest, p.location with
  | false, _ => arguments.get? p.name
  | true, .path => Dict.get? (groupMembers arguments "path") p.name
  | true, .query => Dict.get? (groupMembers arguments "query") p.name
  | true, .header => ((groupMembers arguments "headers").find? fun entry =>
      sameIgnoringCase entry.1 p.name).map Prod.snd
  | true, .body => none

/-- A value other than null is supplied for a parameter outside the body. -/
def Supplied (fullRequest : Bool) (arguments : Json) (p : Parameter) (value : Json) : Prop :=
  argumentFor? fullRequest arguments p = some value ∧ value ≠ .null

/-- A value is absent, or null. -/
def AbsentOrNull (value : Option Json) : Prop := value = none ∨ value = some .null

/-- Null, or an object. -/
def NullOrObject (value : Json) : Prop := value = .null ∨ ∃ members, value = .object members

/-- The arguments are null or an object.  Sorted by place, they have only the four groups, and those
of path, query and headers are null or objects as well. -/
structure WellShaped (fullRequest : Bool) (arguments : Json) : Prop where
  /-- All arguments. -/
  whole : NullOrObject arguments
  /-- There are no other groups. -/
  groups : fullRequest = true → ∀ name ∈ Dict.keys (objectMembers arguments), name ∈ groupNames
  /-- The groups of arguments outside the body. -/
  group : fullRequest = true → ∀ name ∈ ["path", "query", "headers"], ∀ value,
    arguments.get? name = some value → NullOrObject value

variable {fullRequest : Bool} {arguments value : Json} {p : Parameter} {name : String}

/-! ## Reading -/

theorem get?_eq_get?_objectMembers (arguments : Json) (name : String) :
    arguments.get? name = Dict.get? (objectMembers arguments) name := by
  cases arguments <;> rfl

/-- A group is read just if it is null or an object, or there is none. -/
theorem groupOf_eq_ok_iff {group : Dict Json} :
    groupOf (objectMembers arguments) name = .ok group ↔
      (∀ value, arguments.get? name = some value → NullOrObject value) ∧
        group = groupMembers arguments name := by
  rw [groupOf, groupMembers, ← get?_eq_get?_objectMembers]
  cases arguments.get? name with
  | none => simp [eq_comm]
  | some value => cases value <;> simp [NullOrObject, objectMembers, eq_comm]

/-- The arguments that are read. -/
def argumentsOf (fullRequest : Bool) (arguments : Json) : Arguments :=
  if fullRequest then .sorted (groupMembers arguments "path") (groupMembers arguments "query")
    (groupMembers arguments "headers") (given? (arguments.get? "body"))
  else .flat (objectMembers arguments)

/-- Sorted arguments are read just if there are only the four groups and each of them is read. -/
theorem readSorted_eq_ok_iff {a : Arguments} : readSorted (objectMembers arguments) = .ok a ↔
    (∀ name ∈ Dict.keys (objectMembers arguments), name ∈ groupNames) ∧
      (∀ name ∈ ["path", "query", "headers"], ∀ value, arguments.get? name = some value →
        NullOrObject value) ∧ a = argumentsOf true arguments := by
  have hknown : (∀ name ∈ Dict.keys (objectMembers arguments), name ∈ groupNames) ↔
      (Dict.keys (objectMembers arguments)).find? (!groupNames.contains ·) = none := by simp
  rw [hknown, readSorted]
  cases (Dict.keys (objectMembers arguments)).find? (!groupNames.contains ·) with
  | some name => simp
  | none =>
    simp only [andThen_eq_ok_iff, groupOf_eq_ok_iff, pure, Except.pure, Except.ok.injEq, true_and,
      and_true, List.forall_mem_cons, List.not_mem_nil, false_imp_iff, implies_true, argumentsOf,
      get?_eq_get?_objectMembers _ "body"]
    constructor
    · rintro ⟨_, ⟨hpath, rfl⟩, _, ⟨hquery, rfl⟩, _, ⟨hheaders, rfl⟩, rfl⟩
      exact ⟨⟨hpath, hquery, hheaders⟩, rfl⟩
    · rintro ⟨⟨hpath, hquery, hheaders⟩, rfl⟩
      exact ⟨_, ⟨hpath, rfl⟩, _, ⟨hquery, rfl⟩, _, ⟨hheaders, rfl⟩, rfl⟩

/-- **Arguments are read just if they are well shaped.** -/
theorem read_eq_ok_iff {a : Arguments} : Arguments.read fullRequest arguments = .ok a ↔
    WellShaped fullRequest arguments ∧ a = argumentsOf fullRequest arguments := by
  by_cases hwhole : NullOrObject arguments
  · have hread : Arguments.read fullRequest arguments =
        if fullRequest then readSorted (objectMembers arguments)
        else .ok (.flat (objectMembers arguments)) := by
      obtain rfl | ⟨members, rfl⟩ := hwhole <;> rfl
    rw [hread]
    cases fullRequest with
    | false =>
      have hshaped : WellShaped false arguments := ⟨hwhole, nofun, nofun⟩
      simp [hshaped, argumentsOf, eq_comm]
    | true =>
      rw [if_pos rfl, readSorted_eq_ok_iff, ← and_assoc]
      refine and_congr_left' ⟨fun ⟨hgroups, hgroup⟩ => ?_, fun h => ⟨h.groups rfl, h.group rfl⟩⟩
      exact ⟨hwhole, fun _ => hgroups, fun _ => hgroup⟩
  · refine iff_of_false (fun hread => hwhole ?_) fun h => hwhole h.1.whole
    cases arguments with
    | null => exact .inl rfl
    | object members => exact .inr ⟨members, rfl⟩
    | _ => cases hread

/-! ## Values for parameters -/

/-- The arguments that are read give what has been passed. -/
theorem valueOf_argumentsOf (fullRequest : Bool) (arguments : Json) (p : Parameter) :
    (argumentsOf fullRequest arguments).valueOf p = argumentFor? fullRequest arguments p := by
  cases fullRequest with
  | false => exact (get?_eq_get?_objectMembers arguments p.name).symm
  | true =>
    rw [argumentFor?.eq_def, Arguments.valueOf.eq_def]
    cases p.location <;> rfl

theorem isNone_given?_iff {value : Option Json} :
    (given? value).isNone = true ↔ AbsentOrNull value := by
  cases value with
  | none => simp [given?, AbsentOrNull]
  | some v => cases v <;> simp [given?, AbsentOrNull, Json.isNull]

theorem given?_eq_some_iff {found : Option Json} :
    given? found = some value ↔ found = some value ∧ value ≠ .null := by
  rw [given?, Option.filter_eq_some_iff]
  cases value <;> simp [Json.isNull]

/-- A value is given for a parameter among arguments that have been read. -/
def Arguments.Gives (a : Arguments) (p : Parameter) (value : Json) : Prop :=
  given? (a.valueOf p) = some value

/-- The arguments that are read give just what is supplied. -/
theorem gives_argumentsOf (fullRequest : Bool) (arguments : Json) :
    (argumentsOf fullRequest arguments).Gives = Supplied fullRequest arguments := by
  funext p value
  rw [Arguments.Gives, given?_eq_some_iff, valueOf_argumentsOf, Supplied]

end TypedClient.Client
