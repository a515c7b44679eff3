import TypedClient.Types.Check

/-!
# Values of a type, without a limit

The walk that decides whether a value belongs to a type stops at a depth that is fixed beforehand.
What it approximates is a relation between nodes and values that has no limit: the largest one under
which every node admits what its shape admits.

* `Admits` says what a shape admits, given what the nodes it refers to admit;
* `Conforms` is the largest relation that agrees with `Admits`;
* `Conforms.check` says that the walk accepts every value that conforms, and `conforms_of_check`
  that it accepts no others, as long as no descent is longer than the walk is deep;
* `check_decides_conforms` is what a user of the walk needs to know.
-/

set_option autoImplicit false

namespace TypedClient.Types

/-- What an object has to hold for a field. -/
structure FieldAdmits (R : TypeId → Json → Prop) (members : Dict Json) (field : Field) : Prop where
  /-- A member of the name is of the type. -/
  present : ∀ value, Dict.get? members field.name = some value → R field.type value
  /-- A member that has to be there is there. -/
  required : field.required = true → (Dict.get? members field.name).isSome

/-- The shape admits the value, where `R` says what the nodes admit that the shape refers to. -/
def Admits (R : TypeId → Json → Prop) : TypeKind → Json → Prop
  | .unknown, _ => True
  | .primitive p, value => p.admits value = true
  | .enumeration values, value => ∃ listed ∈ values, listed.agrees value = true
  | .array item, .array items => ∀ value ∈ items, R item value
  | .map entry, .object members => ∀ member ∈ members, R entry member.2
  | .object fields, .object members => ∀ field ∈ fields, FieldAdmits R members field
  | .union members, value => ∃ member ∈ members, R member value
  | .array _, _ | .map _, _ | .object _, _ => False

/-- The value conforms to the node: some relation holds of both and agrees with the shapes. -/
def Conforms (g : TypeGraph) (id : TypeId) (value : Json) : Prop :=
  ∃ R : TypeId → Json → Prop, (∀ id value, R id value → Admits R (g.kind id) value) ∧ R id value

/-- A value stands below another at a node that stands below another. -/
inductive Enters (g : TypeGraph) : TypeId → Json → TypeId → Json → Prop
  /-- From a list to an item. -/
  | item {id item : TypeId} {items : List Json} {value : Json} (hkind : g.kind id = .array item)
      (h : value ∈ items) : Enters g id (.array items) item value
  /-- From an object to an entry. -/
  | entry {id entry : TypeId} {members : Dict Json} {member : String × Json}
      (hkind : g.kind id = .map entry) (h : member ∈ members) :
      Enters g id (.object members) entry member.2
  /-- From an object to a member that is declared. -/
  | field {id : TypeId} {fields : List Field} {field : Field} {members : Dict Json} {value : Json}
      (hkind : g.kind id = .object fields) (h : field ∈ fields)
      (hvalue : Dict.get? members field.name = some value) :
      Enters g id (.object members) field.type value
  /-- From a union to one of its members. -/
  | member {id member : TypeId} {members : List TypeId} {value : Json}
      (hkind : g.kind id = .union members) (h : member ∈ members) : Enters g id value member value

/-- A descent of the given number of steps starts at the node and the value. -/
inductive Descent (g : TypeGraph) : TypeId → Json → Nat → Prop
  /-- No step. -/
  | here {id : TypeId} {value : Json} : Descent g id value 0
  /-- One more step. -/
  | step {id child : TypeId} {value part : Json} {n : Nat} (h : Enters g id value child part)
      (hrest : Descent g child part n) : Descent g id value (n + 1)

variable {g : TypeGraph} {R S : TypeId → Json → Prop} {id : TypeId} {value : Json}

/-! ## The relation -/

theorem FieldAdmits.mono {members : Dict Json} {field : Field} (h : FieldAdmits R members field)
    (hRS : ∀ value, Dict.get? members field.name = some value → R field.type value →
      S field.type value) : FieldAdmits S members field :=
  ⟨fun value hvalue => hRS value hvalue (h.present value hvalue), h.required⟩

/-- What a node admits depends on the places one step below it. -/
theorem Admits.mono_of_enters (h : Admits R (g.kind id) value)
    (hRS : ∀ child part, Enters g id value child part → R child part → S child part) :
    Admits S (g.kind id) value := by
  cases hkind : g.kind id with
  | unknown => trivial
  | primitive p =>
    rw [hkind] at h
    exact h
  | enumeration values =>
    rw [hkind] at h
    exact h
  | array item =>
    rw [hkind] at h
    cases value with
    | array items => exact fun part hpart => hRS item part (.item hkind hpart) (h part hpart)
    | _ => exact h
  | map entry =>
    rw [hkind] at h
    cases value with
    | object members =>
      exact fun member hmember => hRS entry member.2 (.entry hkind hmember) (h member hmember)
    | _ => exact h
  | object fields =>
    rw [hkind] at h
    cases value with
    | object members =>
      intro field hfield
      exact (h field hfield).mono fun part hpart => hRS field.type part (.field hkind hfield hpart)
    | _ => exact h
  | union members =>
    rw [hkind] at h
    obtain ⟨member, hmember, hvalue⟩ := h
    exact ⟨member, hmember, hRS member value (.member hkind hmember) hvalue⟩

theorem Conforms.admits (h : Conforms g id value) : Admits (Conforms g) (g.kind id) value := by
  obtain ⟨R, hR, hid⟩ := h
  exact (hR id value hid).mono_of_enters fun child part _ hchild => ⟨R, hR, hchild⟩

/-- A relation that agrees with the shapes, as far as what conforms is known already, holds of
conforming values only. -/
theorem conforms_of_admits (hR : ∀ id value, R id value →
      Admits (fun child part => R child part ∨ Conforms g child part) (g.kind id) value)
    (h : R id value) : Conforms g id value := by
  refine ⟨fun child part => R child part ∨ Conforms g child part, ?_, .inl h⟩
  rintro child part (hchild | hchild)
  · exact hR child part hchild
  · exact hchild.admits.mono_of_enters fun _ _ _ h => .inr h

theorem conforms_iff : Conforms g id value ↔ Admits (Conforms g) (g.kind id) value := by
  refine ⟨Conforms.admits, fun h => ?_⟩
  refine conforms_of_admits
    (R := fun child part => Admits (Conforms g) (g.kind child) part) (fun child part hchild => ?_) h
  exact hchild.mono_of_enters fun _ _ _ h => .inr h

/-! ## One step of the walk -/

theorem under_eq_ok {step : Step} {outcome : Checked} :
    outcome.under step = .ok () ↔ outcome = .ok () := by
  cases outcome with
  | ok u => exact iff_of_true rfl rfl
  | error m => exact iff_of_false (fun h => nomatch h) fun h => nomatch h

/-- Two checks in a row accept when both do. -/
theorem bind_eq_ok {first rest : Checked} :
    (do first; rest) = .ok () ↔ first = .ok () ∧ rest = .ok () := by
  cases first with
  | ok u => exact ⟨fun h => ⟨rfl, h⟩, fun h => h.2⟩
  | error m => exact iff_of_false (fun h => nomatch h) fun h => nomatch h.1

theorem checkItems_eq_ok {check : Json → Checked} {position : Nat} {items : List Json} :
    checkItems check position items = .ok () ↔ ∀ value ∈ items, check value = .ok () := by
  induction items generalizing position with
  | nil => exact iff_of_true rfl fun value h => absurd h List.not_mem_nil
  | cons item rest ih => rw [checkItems, bind_eq_ok, under_eq_ok, ih, List.forall_mem_cons]

theorem checkMembers_eq_ok {check : Json → Checked} {members : List (String × Json)} :
    checkMembers check members = .ok () ↔ ∀ member ∈ members, check member.2 = .ok () := by
  induction members with
  | nil => exact iff_of_true rfl fun value h => absurd h List.not_mem_nil
  | cons member rest ih =>
    rw [checkMembers, bind_eq_ok, under_eq_ok, ih, List.forall_mem_cons]

theorem checkFields_eq_ok {check : TypeId → Json → Checked} {members : Dict Json}
    {fields : List Field} :
    checkFields check members fields = .ok () ↔
      ∀ field ∈ fields, FieldAdmits (fun id value => check id value = .ok ()) members field := by
  induction fields with
  | nil => exact iff_of_true rfl fun field h => absurd h List.not_mem_nil
  | cons field rest ih =>
    rw [List.forall_mem_cons, ← ih, checkFields]
    cases hvalue : Dict.get? members field.name with
    | some value =>
      refine bind_eq_ok.trans (and_congr_left fun _ => ?_)
      rw [under_eq_ok]
      refine ⟨fun h => ⟨fun part hpart => ?_, fun _ => by rw [hvalue]; rfl⟩,
        fun h => h.present value hvalue⟩
      rw [hvalue] at hpart
      cases hpart
      exact h
    | none =>
      cases hrequired : field.required with
      | true =>
        refine iff_of_false (fun h => nomatch h) fun h => ?_
        have hsome := h.1.required hrequired
        rw [hvalue] at hsome
        cases hsome
      | false =>
        refine ⟨fun h => ⟨⟨fun part hpart => ?_, fun htrue => ?_⟩, h⟩, fun h => h.2⟩
        · rw [hvalue] at hpart
          cases hpart
        · rw [hrequired] at htrue
          cases htrue

theorem isOk_iff {outcome : Checked} : outcome.isOk = true ↔ outcome = .ok () := by
  cases outcome with
  | ok u => exact iff_of_true rfl rfl
  | error m => exact iff_of_false Bool.false_ne_true fun h => nomatch h

theorem checkUnion_eq_ok {check : TypeId → Checked} {problem : Problem} {members : List TypeId} :
    checkUnion check (problemHere problem) members = .ok () ↔
      ∃ member ∈ members, check member = .ok () := by
  rw [checkUnion.eq_def]
  split
  · simp only [List.mem_singleton, exists_eq_left]
  · split
    · rename_i hany
      obtain ⟨member, hmember, hok⟩ := List.any_eq_true.1 hany
      exact iff_of_true rfl ⟨member, hmember, isOk_iff.1 hok⟩
    · rename_i hany
      refine iff_of_false (fun h => nomatch h) fun ⟨member, hmember, hok⟩ => hany ?_
      exact List.any_eq_true.2 ⟨member, hmember, isOk_iff.2 hok⟩

/-- One step of the walk accepts what the shape admits, where the rest of the walk tells what the
nodes admit that it refers to. -/
theorem checkWithin_succ_eq_ok {n : Nat} :
    checkWithin g (n + 1) id value = .ok () ↔
      Admits (fun id value => checkWithin g n id value = .ok ()) (g.kind id) value := by
  have hif {b : Bool} {problem : Problem} :
      (if b = true then .ok () else problemHere problem : Checked) = .ok () ↔ b = true := by
    cases b with
    | true => exact iff_of_true rfl rfl
    | false => exact iff_of_false (fun h => nomatch h) Bool.false_ne_true
  rw [checkWithin.eq_def]
  dsimp only
  cases hkind : g.kind id with
  | unknown => exact iff_of_true rfl trivial
  | primitive p => exact hif
  | enumeration values => exact hif.trans List.any_eq_true
  | array item =>
    cases value with
    | array items => exact checkItems_eq_ok
    | _ => exact iff_of_false (fun h => nomatch h) fun h => h
  | map entry =>
    cases value with
    | object members => exact checkMembers_eq_ok
    | _ => exact iff_of_false (fun h => nomatch h) fun h => h
  | object fields =>
    cases value with
    | object members => exact checkFields_eq_ok
    | _ => exact iff_of_false (fun h => nomatch h) fun h => h
  | union members => exact checkUnion_eq_ok

/-! ## The whole walk -/

/-- The walk accepts what conforms, however deep it goes. -/
theorem Conforms.checkWithin (h : Conforms g id value) (n : Nat) :
    checkWithin g n id value = .ok () := by
  induction n generalizing id value with
  | zero => rfl
  | succ n ih =>
    exact checkWithin_succ_eq_ok.2 (h.admits.mono_of_enters fun _ _ _ hchild => ih hchild)

theorem Conforms.check (h : Conforms g id value) : check g id value = .ok () :=
  h.checkWithin (depthLimit + 1)

/-- A walk that reaches the end of every descent accepts nothing but what conforms. -/
theorem conforms_of_checkWithin {depth : Nat} (hdepth : ∀ n, Descent g id value n → n ≤ depth)
    (h : checkWithin g (depth + 1) id value = .ok ()) : Conforms g id value := by
  refine ⟨fun id value => ∃ depth, (∀ n, Descent g id value n → n ≤ depth) ∧
    TypedClient.Types.checkWithin g (depth + 1) id value = .ok (), ?_, depth, hdepth, h⟩
  rintro id value ⟨depth, hdepth, h⟩
  refine (checkWithin_succ_eq_ok.1 h).mono_of_enters fun child part hchild hok => ?_
  have hpositive := hdepth 1 (.step hchild .here)
  obtain ⟨depth, rfl⟩ : ∃ n, depth = n + 1 := ⟨depth - 1, by omega⟩
  exact ⟨depth, fun n hn => Nat.le_of_succ_le_succ (hdepth (n + 1) (.step hchild hn)), hok⟩

theorem conforms_of_check (hdepth : ∀ n, Descent g id value n → n ≤ depthLimit)
    (h : check g id value = .ok ()) : Conforms g id value :=
  conforms_of_checkWithin hdepth h

/-- **The walk decides conformance**: it accepts what conforms, on cycles and beyond its depth as
well, and it accepts nothing else when no descent is longer than 128 steps. -/
theorem check_decides_conforms (g : TypeGraph) (id : TypeId) (value : Json) :
    (Conforms g id value → TypedClient.Types.check g id value = .ok ()) ∧
      ((∀ n, Descent g id value n → n ≤ 128) →
        TypedClient.Types.check g id value = .ok () → Conforms g id value) :=
  ⟨Conforms.check, conforms_of_check⟩

/-- Lists of such lists: a type that refers to itself. -/
def nestedLists : TypeGraph := ⟨#[⟨some "Nested", .array 0, none⟩], [("Nested", 0)]⟩

theorem check_decides_conforms_nested :
    check nestedLists 0 (.array [.array []]) = .ok () ∧
      Conforms nestedLists 0 (.array [.array []]) := by
  have hinner (n : Nat) (h : Descent nestedLists 0 (.array []) n) : n = 0 := by
    cases h with
    | here => rfl
    | step h _ => cases h <;> simp_all [nestedLists, TypeGraph.kind, TypeGraph.node]
  have hdepth (n : Nat) (h : Descent nestedLists 0 (.array [.array []]) n) : n ≤ 128 := by
    cases h with
    | here => decide
    | step h hrest =>
      cases h with
      | item hkind h =>
        cases hkind
        cases List.mem_singleton.1 h
        have := hinner _ hrest
        omega
      | member hkind => cases hkind
  have hok : check nestedLists 0 (.array [.array []]) = .ok () := rfl
  exact ⟨hok, (check_decides_conforms _ _ _).2 hdepth hok⟩

end TypedClient.Types
