import TypedClient.Proofs.Client.Binding
import TypedClient.Proofs.Dictionaries

/-!
# Where arguments go

Every argument that is given goes to the place that its parameter declares, if it can be an argument
of it.

* `givenIn` lists what is given for the parameters in one place;
* `placeAll_eq_ok_iff` says when the arguments are placed, and that each place then holds what is
  given for its parameters.
-/

set_option autoImplicit false

namespace TypedClient.Client

open TypedClient.Api TypedClient.Text TypedClient.Types

variable {op : Operation} {g : TypeGraph} {a : Arguments}

/-- The values given for parameters among some that are in the given place, in order. -/
def givenAmong (a : Arguments) (location : Location) (parameters : List Parameter) :
    List (String × Json) :=
  (parameters.filter (·.location = location)).filterMap fun p =>
    (given? (a.valueOf p)).map fun value => (p.name, value)

/-- The values given for the parameters in a place, in the order of the parameters. -/
def givenIn (op : Operation) (a : Arguments) (location : Location) : List (String × Json) :=
  givenAmong a location op.parameters

/-- A header as it is sent. -/
def headerEntry (entry : String × Json) : String × String :=
  (lowerAscii entry.1, headerText entry.2)

/-- Every value given for a parameter outside of the body can be an argument of it. -/
def AllFit (g : TypeGraph) (op : Operation) (a : Arguments) : Prop :=
  ∀ p ∈ op.parameters, p.location ≠ .body →
    ∀ value, given? (a.valueOf p) = some value → fits g p.type value = true

/-! ## One argument -/

/-- What has been placed, with one value more. -/
def Placed.add (placed : Placed) (p : Parameter) (value : Json) : Placed :=
  match p.location with
  | .path => { placed with path := Dict.insert placed.path p.name value }
  | .query => { placed with query := placed.query ++ [(p.name, value)] }
  | .header => { placed with headers := placed.headers.insert p.name (headerText value) }
  | .body => placed

/-- What has been placed, with the argument for a parameter if it is given. -/
def placeGiven (a : Arguments) (placed : Placed) (p : Parameter) : Placed :=
  (given? (a.valueOf p)).elim placed (placed.add p)

/-- An argument that is given is placed just if it fits. -/
theorem place_eq_ok_iff {placed next : Placed} {p : Parameter} :
    place g op a placed p = .ok next ↔
      (∀ value, given? (a.valueOf p) = some value → fits g p.type value = true) ∧
        placeGiven a placed p = next := by
  rw [place, placeGiven]
  cases given? (a.valueOf p) with
  | none => simp
  | some value =>
    cases hfits : fits g p.type value with
    | false => simp [hfits]
    | true => cases hlocation : p.location <;> simp [Placed.add, hfits, hlocation]

/-! ## All arguments -/

theorem placeGiven_eq (placed : Placed) (p : Parameter) :
    placeGiven a placed p
      = ⟨Dict.overlay placed.path (givenAmong a .path [p]),
          placed.query ++ givenAmong a .query [p],
          ⟨Dict.overlay placed.headers.entries ((givenAmong a .header [p]).map headerEntry)⟩⟩ := by
  rw [placeGiven]
  cases hvalue : given? (a.valueOf p) with
  | none =>
    cases hlocation : p.location <;>
      simp [givenAmong, hvalue, hlocation, Dict.overlay]
  | some value =>
    cases hlocation : p.location <;>
      simp [Placed.add, givenAmong, hvalue, hlocation, Dict.overlay, Headers.insert, headerEntry]

theorem givenAmong_cons (location : Location) (p : Parameter) (rest : List Parameter) :
    givenAmong a location (p :: rest) =
      givenAmong a location [p] ++ givenAmong a location rest := by
  rw [givenAmong, ← List.singleton_append, List.filter_append, List.filterMap_append]
  rfl

theorem foldl_placeGiven (parameters : List Parameter) (placed : Placed) :
    parameters.foldl (placeGiven a) placed
      = ⟨Dict.overlay placed.path (givenAmong a .path parameters),
          placed.query ++ givenAmong a .query parameters,
          ⟨Dict.overlay placed.headers.entries
            ((givenAmong a .header parameters).map headerEntry)⟩⟩ := by
  induction parameters generalizing placed with
  | nil => simp [givenAmong, Dict.overlay]
  | cons p rest ih =>
    rw [List.foldl_cons, ih, placeGiven_eq, givenAmong_cons .path p rest,
      givenAmong_cons .query p rest, givenAmong_cons .header p rest, List.map_append,
      Dict.overlay_append,
      Dict.overlay_append, List.append_assoc]

/-- Arguments are placed one by one, as long as each fits. -/
theorem foldlM_place_eq_ok_iff {parameters : List Parameter} {placed next : Placed} :
    parameters.foldlM (place g op a) placed = .ok next ↔
      (∀ p ∈ parameters, ∀ value, given? (a.valueOf p) = some value → fits g p.type value = true) ∧
        parameters.foldl (placeGiven a) placed = next := by
  induction parameters generalizing placed with
  | nil => simp [pure, Except.pure]
  | cons p rest ih =>
    rw [List.foldlM_cons, List.forall_mem_cons, List.foldl_cons]
    cases hplace : place g op a placed p with
    | ok first =>
      obtain ⟨hfits, rfl⟩ := place_eq_ok_iff.1 hplace
      rw [and_assoc, and_iff_right hfits]
      exact ih
    | error e =>
      refine iff_of_false (fun h => nomatch h) ?_
      rintro ⟨⟨hfits, -⟩, -⟩
      rw [place_eq_ok_iff.2 ⟨hfits, rfl⟩] at hplace
      cases hplace

/-- What is placed: each place holds what is given for its parameters. -/
def placedArguments (op : Operation) (a : Arguments) : Placed where
  path := Dict.ofList (givenIn op a .path)
  query := givenIn op a .query
  headers := ⟨Dict.ofList ((givenIn op a .header).map headerEntry)⟩

theorem givenAmong_plain {location : Location} (hplace : location ≠ .body) :
    givenAmong a location (op.parameters.filter (·.location ≠ .body)) = givenIn op a location := by
  rw [givenIn, givenAmong, givenAmong, List.filter_filter]
  congr 1
  refine List.filter_congr fun p _ => ?_
  by_cases hlocation : p.location = location
  · simp [hlocation, hplace]
  · simp [hlocation]

/-- **The arguments are placed** just if all of them fit, and then each place holds what is given
for its parameters. -/
theorem placeAll_eq_ok_iff {placed : Placed} :
    placeAll g op a = .ok placed ↔ AllFit g op a ∧ placed = placedArguments op a := by
  rw [placeAll, foldlM_place_eq_ok_iff, foldl_placeGiven, givenAmong_plain (by decide),
    givenAmong_plain (by decide), givenAmong_plain (by decide), List.nil_append]
  refine and_congr ?_ eq_comm
  simp only [AllFit, List.mem_filter, decide_eq_true_eq, and_imp]

end TypedClient.Client
