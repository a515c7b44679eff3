import TypedClient.Proofs.Lists
import TypedClient.Proofs.Types.Conformance

/-!
# Mismatches

The walk that checks a value goes down until it is at a value that fails by itself, and reports this
place.  Nothing that it has looked at before has failed: an item is entered when the items before it
have passed, and so are entries of maps and fields of object types.

* `Takes` is a step down, with what has passed before it; one through an alias stays at the value;
* `Fails` says that a value fails by itself, and of what;
* `Descends` is the way of the walk from the value to the one that fails;
* `checkWithin_eq_error_iff` says that the walk reports a mismatch just if it descends to it.

How deep the walk looks at parts that pass depends on the place, since it stops at a depth that is
fixed for the whole value.  A part that fails does so whatever the depth (`Fails.check_ne_ok`).

A mismatch has the way to its place as a list of steps, put together when the walk comes back.  The
walk can as well keep the way to the place that it looks at in one text: it writes a step behind the
text before it looks at a part, and cuts the text back to its old length when the part has passed.
Members of a union have the same place as the union, so each is looked at with a text of its own.

* `trackWithin` is the walk with one text;
* `Checked.tell` words an outcome as a walk does that starts behind a text;
* `trackWithin_eq` says that the two walks find the same;
* `check_reports_first` is what the place of a mismatch means.
-/

set_option autoImplicit false

namespace TypedClient.Types

variable {g : TypeGraph} {id child : TypeId} {value part : Json} {steps path : List Step}
  {n left : Nat}

/-- The walk accepts the value, with so many steps left. -/
def Passes (g : TypeGraph) (left : Nat) (id : TypeId) (value : Json) : Prop :=
  checkWithin g left id value = .ok ()

/-- The value is of the kind that the shape asks for, whatever its parts are. -/
def TypeKind.Suits : TypeKind → Json → Prop
  | .primitive p, value => p.admits value = true
  | .array _, value => ∃ items, value = .array items
  | .map _, value | .object _, value => ∃ members, value = .object members
  | .unknown, _ | .enumeration _, _ | .union _, _ => True

/-- The value fails at the node by itself, and not through a part, of the given problem. -/
inductive Fails (g : TypeGraph) (left : Nat) (id : TypeId) : Json → Problem → Prop
  /-- It is of another kind. -/
  | otherKind {value : Json} (h : ¬(g.kind id).Suits value) :
      Fails g left id value (.otherKind id value)
  /-- It is no value of an enumeration. -/
  | unlisted {values : List Json} {value : Json} (hkind : g.kind id = .enumeration values)
      (h : ∀ listed ∈ values, ¬listed.agrees value = true) :
      Fails g left id value (.unlisted id value)
  /-- No member of a union matches, and there is not just one. -/
  | unmatched {members : List TypeId} {value : Json} (hkind : g.kind id = .union members)
      (hlength : members.length ≠ 1) (h : ∀ member ∈ members, ¬Passes g left member value) :
      Fails g left id value (.otherKind id value)
  /-- A required field is missing; the fields before it have passed. -/
  | missing {before after : List Field} {field : Field} {members : Dict Json}
      (hkind : g.kind id = .object (before ++ field :: after))
      (hbefore : ∀ earlier ∈ before, FieldAdmits (Passes g left) members earlier)
      (hrequired : field.required = true) (hnone : Dict.get? members field.name = none) :
      Fails g left id (.object members) (.missing field.name)

/-- A step from a node and a value to a node and a part of the value, with what is added to the
path. -/
inductive Takes (g : TypeGraph) (left : Nat) (id : TypeId) : Json → List Step → TypeId → Json → Prop
  /-- To an item of a list; the items before it have passed. -/
  | item {item : TypeId} {before after : List Json} {part : Json} (hkind : g.kind id = .array item)
      (hbefore : ∀ earlier ∈ before, Passes g left item earlier) :
      Takes g left id (.array (before ++ part :: after)) [.index before.length] item part
  /-- To an entry of a map; the entries before it have passed. -/
  | entry {entry : TypeId} {before after : Dict Json} {name : String} {part : Json}
      (hkind : g.kind id = .map entry)
      (hbefore : ∀ earlier ∈ before, Passes g left entry earlier.2) :
      Takes g left id (.object (before ++ (name, part) :: after)) [.member name] entry part
  /-- To a field that is declared; the fields before it have passed. -/
  | field {before after : List Field} {field : Field} {members : Dict Json} {part : Json}
      (hkind : g.kind id = .object (before ++ field :: after))
      (hbefore : ∀ earlier ∈ before, FieldAdmits (Passes g left) members earlier)
      (hpart : Dict.get? members field.name = some part) :
      Takes g left id (.object members) [.member field.name] field.type part
  /-- To what an alias stands for. -/
  | aliased {member : TypeId} {value : Json} (hkind : g.kind id = .union [member]) :
      Takes g left id value [] member value

/-- What the walk reports with one step more than it has left for the parts. -/
inductive Reports (g : TypeGraph) (left : Nat) (id : TypeId) (value : Json) : Mismatch → Prop
  /-- The value fails by itself. -/
  | here {problem : Problem} (h : Fails g left id value problem) :
      Reports g left id value ⟨[], problem⟩
  /-- It is reported of a part. -/
  | below {steps : List Step} {child : TypeId} {part : Json} {inner : Mismatch}
      (h : Takes g left id value steps child part)
      (hinner : checkWithin g left child part = .error inner) :
      Reports g left id value ⟨steps ++ inner.path, inner.problem⟩

/-- The way along a path from a node and a value, where the walk has so many steps left, to a node
and a part, where it has fewer. -/
inductive Descends (g : TypeGraph) : Nat → TypeId → Json → List Step → Nat → TypeId → Json → Prop
  /-- No step. -/
  | here {left : Nat} {id : TypeId} {value : Json} : Descends g left id value [] left id value
  /-- One more step. -/
  | step {left rest : Nat} {id child node : TypeId} {value part last : Json}
      {steps path : List Step} (h : Takes g left id value steps child part)
      (hrest : Descends g left child part path rest node last) :
      Descends g (left + 1) id value (steps ++ path) rest node last

/-- A path leads from a value to a part of it: an index to the item of a list that has it, a name to
a member of an object that has it. -/
inductive PartAt : Json → List Step → Json → Prop
  /-- No step. -/
  | here {value : Json} : PartAt value [] value
  /-- To an item, and on. -/
  | item {items : List Json} {i : Nat} {item part : Json} {path : List Step}
      (hitem : items[i]? = some item) (h : PartAt item path part) :
      PartAt (.array items) (.index i :: path) part
  /-- To a member, and on. -/
  | member {members : Dict Json} {name : String} {value part : Json} {path : List Step}
      (hmember : (name, value) ∈ members) (h : PartAt value path part) :
      PartAt (.object members) (.member name :: path) part

/-! ## With one text for the place -/

/-- A check that has a text for the place that it looks at, and that fails with a message. -/
abbrev Tracked := StateT String (Except String) Unit

/-- Fails at the place that is looked at. -/
def failHere (g : TypeGraph) (problem : Problem) : Tracked :=
  fun path => .error (path ++ ": " ++ problem.message g)

/-- Looks at a part. -/
def Tracked.inside (step : Step) (part : Tracked) : Tracked := do
  let length := (← get).length
  modify (· ++ step.text)
  part
  modify fun path => String.ofList (path.toList.take length)

/-- Tries checks at the same place, each with a text of its own.  A single check that fails says
why. -/
def Tracked.anyOf (checks : List Tracked) (otherwise : Tracked) : Tracked := fun path =>
  if checks.any fun check => (check path).isOk then .ok ((), path)
  else match checks with
    | [check] => check path
    | _ => otherwise path

/-- Checks the member of an object that a field declares. -/
def trackField (g : TypeGraph) (track : TypeId → Json → Tracked) (members : Dict Json)
    (field : Field) :
    Tracked :=
  match Dict.get? members field.name with
  | some part => (track field.type part).inside (.member field.name)
  | none => if field.required then failHere g (.missing field.name) else pure ()

/-- Checks a value against a type, at most `steps` steps deep, with a text for the place. -/
def trackWithin (g : TypeGraph) : (steps : Nat) → TypeId → Json → Tracked
  | 0, _, _ => pure ()
  | steps + 1, id, value =>
    let otherKind := failHere g (.otherKind id value)
    match g.kind id, value with
    | .unknown, _ => pure ()
    | .primitive p, value => if p.admits value then pure () else otherKind
    | .enumeration values, value =>
      if values.any (·.agrees value) then pure () else failHere g (.unlisted id value)
    | .array item, .array items =>
      items.zipIdx.forM fun part => (trackWithin g steps item part.1).inside (.index part.2)
    | .map entry, .object members =>
      members.forM fun member => (trackWithin g steps entry member.2).inside (.member member.1)
    | .object fields, .object members => fields.forM (trackField g (trackWithin g steps) members)
    | .union members, value =>
      .anyOf (members.map fun member => trackWithin g steps member value) otherKind
    | .array _, _ | .map _, _ | .object _, _ => otherKind

/-- The outcome of a check as it is told behind a text. -/
def Checked.tell (g : TypeGraph) (outcome : Checked) : Tracked := fun path =>
  match outcome with
  | .ok () => .ok ((), path)
  | .error m => .error (path ++ String.join (m.path.map Step.text) ++ ": " ++ m.problem.message g)

/-! ## Checks in a row -/

theorem under_eq_error {step : Step} {outcome : Checked} {m : Mismatch} :
    outcome.under step = .error m ↔
      ∃ inner, outcome = .error inner ∧ m = ⟨step :: inner.path, inner.problem⟩ := by
  cases outcome with
  | ok u => exact iff_of_false (fun h => nomatch h) (by simp)
  | error inner =>
    constructor
    · intro h
      cases h
      exact ⟨inner, rfl, rfl⟩
    · rintro ⟨_, h, rfl⟩
      cases h
      rfl

theorem checkItems_eq_forM {check : Json → Checked} {position : Nat} {items : List Json} :
    checkItems check position items =
      (items.zipIdx position).forM fun item => (check item.1).under (.index item.2) := by
  induction items generalizing position with
  | nil => rfl
  | cons item items ih =>
    rw [checkItems, ih]
    rfl

theorem checkMembers_eq_forM {check : Json → Checked} {members : List (String × Json)} :
    checkMembers check members = members.forM fun member =>
      (check member.2).under (.member member.1) := by
  induction members with
  | nil => rfl
  | cons member members ih =>
    rw [checkMembers, ih]
    rfl

/-- Checks the member of an object that a field declares. -/
def checkField (check : TypeId → Json → Checked) (members : Dict Json) (field : Field) : Checked :=
  match Dict.get? members field.name with
  | some value => (check field.type value).under (.member field.name)
  | none => if field.required then problemHere (.missing field.name) else .ok ()

theorem checkFields_eq_forM {check : TypeId → Json → Checked} {members : Dict Json}
    {fields : List Field} :
    checkFields check members fields = fields.forM (checkField check members) := by
  induction fields with
  | nil => rfl
  | cons field fields ih =>
    simp only [checkFields, ih, List.forM_eq_forM, List.forM_cons, checkField]
    cases Dict.get? members field.name with
    | some value => rfl
    | none => cases field.required <;> rfl

theorem checkField_eq_ok {check : TypeId → Json → Checked} {members : Dict Json} {field : Field} :
    checkField check members field = .ok () ↔
      FieldAdmits (fun id value => check id value = .ok ()) members field := by
  have hone : checkFields check members [field] = checkField check members field := by
    rw [checkFields_eq_forM]
    change (do checkField check members field; pure ()) = _
    cases checkField check members field <;> rfl
  rw [← hone, checkFields_eq_ok, List.forall_mem_singleton]

theorem checkItems_eq_error {check : Json → Checked} {items : List Json} {m : Mismatch} :
    checkItems check 0 items = .error m ↔
      ∃ before part after inner, items = before ++ part :: after ∧
      (∀ earlier ∈ before, check earlier = .ok ()) ∧ check part = .error inner ∧
      m = ⟨.index before.length :: inner.path, inner.problem⟩ := by
  rw [checkItems_eq_forM, forM_eq_error]
  constructor
  · rintro ⟨before, ⟨part, i⟩, after, hitems, hbefore, hpart⟩
    obtain ⟨inner, hinner, rfl⟩ := under_eq_error.1 hpart
    obtain ⟨first, rest, rfl, rfl, hrest⟩ := List.zipIdx_eq_append_iff.1 hitems
    obtain ⟨_, last, rfl, heq, -⟩ := List.zipIdx_eq_cons_iff.1 hrest.symm
    cases heq
    refine ⟨first, part, last, inner, rfl, ?_, hinner, by rw [Nat.zero_add]⟩
    rw [← List.zipIdx_map_fst 0 first, List.forall_mem_map]
    exact fun earlier h => under_eq_ok.1 (hbefore earlier h)
  · rintro ⟨before, part, after, inner, rfl, hbefore, hinner, rfl⟩
    refine ⟨before.zipIdx, (part, before.length), after.zipIdx (before.length + 1), ?_, ?_, ?_⟩
    · simp [List.zipIdx_append, List.zipIdx_cons]
    · exact fun earlier h => under_eq_ok.2 (hbefore _ (List.fst_mem_of_mem_zipIdx h))
    · exact under_eq_error.2 ⟨inner, hinner, rfl⟩

theorem checkMembers_eq_error {check : Json → Checked} {members : Dict Json} {m : Mismatch} :
    checkMembers check members = .error m ↔
      ∃ before name part after inner, members = before ++ (name, part) :: after ∧
        (∀ earlier ∈ before, check earlier.2 = .ok ()) ∧ check part = .error inner ∧
        m = ⟨.member name :: inner.path, inner.problem⟩ := by
  rw [checkMembers_eq_forM, forM_eq_error]
  constructor
  · rintro ⟨before, ⟨name, part⟩, after, rfl, hbefore, hpart⟩
    obtain ⟨inner, hinner, rfl⟩ := under_eq_error.1 hpart
    exact ⟨before, name, part, after, inner, rfl,
      fun earlier h => under_eq_ok.1 (hbefore earlier h), hinner, rfl⟩
  · rintro ⟨before, name, part, after, inner, rfl, hbefore, hinner, rfl⟩
    exact ⟨before, (name, part), after, rfl, fun earlier h => under_eq_ok.2 (hbefore earlier h),
      under_eq_error.2 ⟨inner, hinner, rfl⟩⟩

theorem checkFields_eq_error {check : TypeId → Json → Checked} {members : Dict Json}
    {fields : List Field} {m : Mismatch} :
    checkFields check members fields = .error m ↔
      ∃ before field after, fields = before ++ field :: after ∧
        (∀ earlier ∈ before,
          FieldAdmits (fun id value => check id value = .ok ()) members earlier) ∧
        checkField check members field = .error m := by
  simp only [checkFields_eq_forM, forM_eq_error, checkField_eq_ok]

/-- A union that no member matches reports the problem of its member, if it has just one. -/
theorem checkUnion_eq_error {check : TypeId → Checked} {problem : Problem} {members : List TypeId}
    {m : Mismatch} :
    checkUnion check (problemHere problem) members = .error m ↔
      (∃ member, members = [member] ∧ check member = .error m) ∨
      members.length ≠ 1 ∧ (∀ member ∈ members, ¬check member = .ok ()) ∧ m = ⟨[], problem⟩ := by
  rw [checkUnion.eq_def]
  split
  · simp
  · rename_i hmembers
    have hlength : members.length ≠ 1 := fun hone => by
      obtain ⟨member, rfl⟩ := List.length_eq_one_iff.1 hone
      exact hmembers member rfl
    have hsingle : ¬∃ member, members = [member] ∧ check member = .error m := by
      rintro ⟨member, h, -⟩
      exact hmembers member h
    rw [or_iff_right hsingle, and_iff_right hlength]
    split
    · rename_i hany
      obtain ⟨member, hmember, hok⟩ := List.any_eq_true.1 hany
      exact iff_of_false (by simp) fun h => h.1 member hmember (isOk_iff.1 hok)
    · rename_i hnone
      have hall : ∀ member ∈ members, ¬check member = .ok () := fun member hmember hok =>
        hnone (List.any_eq_true.2 ⟨member, hmember, isOk_iff.2 hok⟩)
      rw [and_iff_right hall]
      exact ⟨fun h => (Except.error.inj h).symm, fun h => congrArg Except.error h.symm⟩

/-! ## One step -/

/-- A value of another kind is reported whatever its parts are. -/
theorem checkWithin_of_not_suits (h : ¬(g.kind id).Suits value) :
    checkWithin g (left + 1) id value = problemHere (.otherKind id value) := by
  rw [checkWithin.eq_def]
  dsimp only
  generalize g.kind id = kind at h ⊢
  cases kind with
  | primitive p => exact if_neg h
  | array item =>
    cases value with
    | array items => exact absurd ⟨items, rfl⟩ h
    | _ => rfl
  | map entry =>
    cases value with
    | object members => exact absurd ⟨members, rfl⟩ h
    | _ => rfl
  | object fields =>
    cases value with
    | object members => exact absurd ⟨members, rfl⟩ h
    | _ => rfl
  | _ => exact absurd trivial h

theorem checkWithin_array {item : TypeId} (hkind : g.kind id = .array item) (items : List Json) :
    checkWithin g (left + 1) id (.array items) = checkItems (checkWithin g left item) 0 items := by
  simp only [checkWithin, hkind]

theorem checkWithin_map {entry : TypeId} (hkind : g.kind id = .map entry) (members : Dict Json) :
    checkWithin g (left + 1) id (.object members) =
      checkMembers (checkWithin g left entry) members := by
  simp only [checkWithin, hkind]

theorem checkWithin_object {fields : List Field} (hkind : g.kind id = .object fields)
    (members : Dict Json) :
    checkWithin g (left + 1) id (.object members) =
      checkFields (checkWithin g left) members fields := by
  simp only [checkWithin, hkind]

theorem checkWithin_union {members : List TypeId} (hkind : g.kind id = .union members) :
    checkWithin g (left + 1) id value =
      checkUnion (fun member => checkWithin g left member value) (problemHere (.otherKind id value))
        members := by
  simp only [checkWithin, hkind]

theorem checkWithin_enumeration {values : List Json} (hkind : g.kind id = .enumeration values) :
    checkWithin g (left + 1) id value =
      if values.any (·.agrees value) then .ok () else problemHere (.unlisted id value) := by
  simp only [checkWithin, hkind]

theorem Fails.checkWithin_eq {problem : Problem} (h : Fails g left id value problem) :
    checkWithin g (left + 1) id value = .error ⟨[], problem⟩ := by
  cases h with
  | otherKind h => exact checkWithin_of_not_suits h
  | unlisted hkind h =>
    rw [checkWithin_enumeration hkind, if_neg (by simpa using h)]
    rfl
  | unmatched hkind hlength h =>
    rw [checkWithin_union hkind, checkUnion_eq_error]
    exact .inr ⟨hlength, h, rfl⟩
  | missing hkind hbefore hrequired hnone =>
    rw [checkWithin_object hkind, checkFields_eq_error]
    refine ⟨_, _, _, rfl, hbefore, ?_⟩
    rw [checkField, hnone]
    exact if_pos hrequired

theorem Takes.checkWithin_eq (h : Takes g left id value steps child part) {inner : Mismatch}
    (hinner : checkWithin g left child part = .error inner) :
    checkWithin g (left + 1) id value = .error ⟨steps ++ inner.path, inner.problem⟩ := by
  cases h with
  | item hkind hbefore =>
    rw [checkWithin_array hkind, checkItems_eq_error]
    exact ⟨_, _, _, inner, rfl, hbefore, hinner, rfl⟩
  | entry hkind hbefore =>
    rw [checkWithin_map hkind, checkMembers_eq_error]
    exact ⟨_, _, _, _, inner, rfl, hbefore, hinner, rfl⟩
  | field hkind hbefore hpart =>
    rw [checkWithin_object hkind, checkFields_eq_error]
    refine ⟨_, _, _, rfl, hbefore, ?_⟩
    rw [checkField, hpart]
    exact under_eq_error.2 ⟨inner, hinner, rfl⟩
  | aliased hkind =>
    rw [checkWithin_union hkind, checkUnion_eq_error]
    exact .inl ⟨_, rfl, hinner⟩

/-- What is reported of an object is a field that is missing, or it is reported of one that is
there. -/
theorem reports_of_checkFields {fields : List Field} {members : Dict Json} {m : Mismatch}
    (hkind : g.kind id = .object fields)
    (h : checkFields (checkWithin g left) members fields = .error m) :
    Reports g left id (.object members) m := by
  obtain ⟨before, field, after, rfl, hbefore, hfield⟩ := checkFields_eq_error.1 h
  rw [checkField] at hfield
  cases hpart : Dict.get? members field.name with
  | some part =>
    rw [hpart] at hfield
    obtain ⟨inner, hinner, rfl⟩ := under_eq_error.1 hfield
    exact .below (.field hkind hbefore hpart) hinner
  | none =>
    rw [hpart] at hfield
    dsimp only at hfield
    split at hfield
    · rename_i hrequired
      cases hfield
      exact .here (.missing hkind hbefore hrequired hpart)
    · cases hfield

/-- **One step of the walk.**  What it reports is the value itself, or what it reports of the first
part that does not pass. -/
theorem checkWithin_succ_eq_error_iff {m : Mismatch} :
    checkWithin g (left + 1) id value = .error m ↔ Reports g left id value m := by
  constructor
  · intro h
    by_cases hsuits : (g.kind id).Suits value
    · cases hkind : g.kind id with
      | unknown =>
        rw [checkWithin.eq_def] at h
        simp [hkind] at h
      | primitive p =>
        rw [hkind] at hsuits
        have hadmits : p.admits value = true := hsuits
        simp [checkWithin, hkind, hadmits] at h
      | enumeration values =>
        rw [checkWithin_enumeration hkind] at h
        split at h
        · cases h
        · rename_i hnone
          cases h
          exact .here (.unlisted hkind (by simpa using hnone))
      | array item =>
        rw [hkind] at hsuits
        obtain ⟨items, rfl⟩ := hsuits
        rw [checkWithin_array hkind] at h
        obtain ⟨before, part, after, inner, rfl, hbefore, hinner, rfl⟩ := checkItems_eq_error.1 h
        exact .below (.item hkind hbefore) hinner
      | map entry =>
        rw [hkind] at hsuits
        obtain ⟨members, rfl⟩ := hsuits
        rw [checkWithin_map hkind] at h
        obtain ⟨before, name, part, after, inner, rfl, hbefore, hinner, rfl⟩ :=
          checkMembers_eq_error.1 h
        exact .below (.entry hkind hbefore) hinner
      | object fields =>
        rw [hkind] at hsuits
        obtain ⟨members, rfl⟩ := hsuits
        rw [checkWithin_object hkind] at h
        exact reports_of_checkFields hkind h
      | union members =>
        rw [checkWithin_union hkind] at h
        rcases checkUnion_eq_error.1 h with ⟨member, rfl, hmember⟩ | ⟨hlength, hnone, rfl⟩
        · exact .below (.aliased hkind) hmember
        · exact .here (.unmatched hkind hlength hnone)
    · rw [checkWithin_of_not_suits hsuits] at h
      cases h
      exact .here (.otherKind hsuits)
  · rintro (hfails | ⟨htakes, hinner⟩)
    · exact hfails.checkWithin_eq
    · exact htakes.checkWithin_eq hinner

/-! ## The whole walk -/

/-- **The walk reports where it ends**, and it ends where a value fails by itself that it has
descended to. -/
theorem checkWithin_eq_error_iff {m : Mismatch} : checkWithin g n id value = .error m ↔
    ∃ left node last, Descends g n id value m.path (left + 1) node last ∧
      Fails g left node last m.problem := by
  constructor
  · intro h
    induction n generalizing id value m with
    | zero => cases h
    | succ n ih =>
      rcases checkWithin_succ_eq_error_iff.1 h with hfails | ⟨htakes, hinner⟩
      · exact ⟨n, id, value, .here, hfails⟩
      · obtain ⟨left, node, last, hdescends, hfails⟩ := ih hinner
        exact ⟨left, node, last, .step htakes hdescends, hfails⟩
  · rintro ⟨left, node, last, hdescends, hfails⟩
    obtain ⟨path, problem⟩ := m
    dsimp only at hdescends hfails
    generalize hrest : left + 1 = rest at hdescends
    induction hdescends with
    | here =>
      subst hrest
      exact hfails.checkWithin_eq
    | step htakes _ ih => exact htakes.checkWithin_eq (ih hfails hrest)

/-! ## Where the walk ends -/

theorem Takes.enters (h : Takes g left id value steps child part) :
    Enters g id value child part := by
  cases h with
  | item hkind => exact .item hkind (by simp)
  | entry hkind => exact .entry hkind (List.mem_append_right _ List.mem_cons_self)
  | field hkind _ hpart => exact .field hkind (by simp) hpart
  | aliased hkind => exact .member hkind (by simp)

theorem Enters.lt (hg : g.Closed) (h : Enters g id value child part) (hid : id < g.size) :
    child < g.size := by
  refine hg.1 id hid child ?_
  cases h with
  | item hkind => simp [hkind, TypeKind.references]
  | entry hkind => simp [hkind, TypeKind.references]
  | field hkind h => simpa [hkind, TypeKind.references] using ⟨_, h, rfl⟩
  | member hkind h => simpa [hkind, TypeKind.references] using h

theorem Takes.partAt (h : Takes g left id value steps child part) {last : Json}
    (hrest : PartAt part path last) : PartAt value (steps ++ path) last := by
  cases h with
  | item => exact .item (by simp) hrest
  | entry => exact .member (by simp) hrest
  | field _ _ hpart => exact .member (Dict.mem_of_get? hpart) hrest
  | aliased => exact hrest

section Descends

variable {node : TypeId} {last : Json} {rest : Nat}

/-- The way that the walk took can be read off the value alone. -/
theorem Descends.partAt (h : Descends g n id value path rest node last) :
    PartAt value path last := by
  induction h with
  | here => exact .here
  | step htakes _ ih => exact htakes.partAt ih

theorem Descends.lt (hg : g.Closed) (h : Descends g n id value path rest node last)
    (hid : id < g.size) : node < g.size := by
  induction h with
  | here => exact hid
  | step htakes _ ih => exact ih (htakes.enters.lt hg hid)

theorem Descends.le (h : Descends g n id value path rest node last) : rest ≤ n := by
  induction h with
  | here => exact Nat.le_refl _
  | step _ _ ih => exact Nat.le_succ_of_le ih

end Descends

/-- A walk that goes deeper accepts less. -/
theorem Passes.of_succ (h : Passes g (n + 1) id value) : Passes g n id value := by
  induction n generalizing id value with
  | zero => rfl
  | succ n ih =>
    exact checkWithin_succ_eq_ok.2
      ((checkWithin_succ_eq_ok.1 h).mono_of_enters fun _ _ _ hchild => ih hchild)

theorem Passes.mono {m : Nat} (h : Passes g m id value) (hle : n ≤ m) : Passes g n id value := by
  induction hle with
  | refl => exact h
  | step _ ih => exact ih h.of_succ

/-- A value that fails by itself does not pass when the walk starts at it. -/
theorem Fails.check_ne_ok {problem : Problem} (h : Fails g left id value problem)
    (hleft : left ≤ depthLimit) : check g id value ≠ .ok () := by
  intro hok
  have hpasses : Passes g (left + 1) id value := Passes.mono hok (Nat.succ_le_succ hleft)
  rw [Passes, h.checkWithin_eq] at hpasses
  cases hpasses

/-! ## The way as a text -/

section Tracking

variable {outcome : Checked}

@[simp] theorem tell_ok : Checked.tell g (.ok ()) = pure () := rfl

@[simp] theorem tell_problemHere (problem : Problem) :
    Checked.tell g (problemHere problem) = failHere g problem := by
  funext path
  simp [Checked.tell, problemHere, failHere]

theorem tell_ite {b : Bool} (problem : Problem) :
    Checked.tell g (if b then .ok () else problemHere problem) =
      if b then pure () else failHere g problem := by
  cases b <;> simp

theorem tell_bind (first rest : Checked) :
    Checked.tell g (do first; rest) = (do first.tell g; rest.tell g) := by
  cases first <;> rfl

theorem tell_forM {α : Type} (l : List α) (f : α → Checked) :
    Checked.tell g (l.forM f) = l.forM fun a => (f a).tell g := by
  induction l with
  | nil => rfl
  | cons a l ih =>
    simp only [List.forM_eq_forM, List.forM_cons, tell_bind] at ih ⊢
    rw [ih]

/-- Cutting back takes off what was written for the part. -/
theorem take_append_length (path written : String) :
    String.ofList ((path ++ written).toList.take path.length) = path := by
  rw [String.toList_append, ← String.length_toList, List.take_left, String.ofList_toList]

/-- The text is what it was if the part has passed, and else the message has it. -/
theorem tell_under (step : Step) :
    Checked.tell g (outcome.under step) = (outcome.tell g).inside step := by
  funext path
  cases outcome with
  | ok u =>
    show (.ok ((), path) : Except String (Unit × String)) =
      .ok ((), String.ofList ((path ++ step.text).toList.take path.length))
    rw [take_append_length]
  | error m =>
    show (.error _ : Except String (Unit × String)) = .error _
    simp [String.append_assoc]

theorem isOk_tell (path : String) : (outcome.tell g path).isOk = outcome.isOk := by
  cases outcome <;> rfl

/-- A union tries its members behind the same text. -/
theorem tell_checkUnion {check : TypeId → Checked} {otherwise : Checked} {members : List TypeId} :
    Checked.tell g (checkUnion check otherwise members) =
      .anyOf (members.map fun member => (check member).tell g) (otherwise.tell g) := by
  funext path
  rw [Tracked.anyOf.eq_def, List.any_map]
  simp only [Function.comp_def, isOk_tell]
  match members with
  | [] => rfl
  | [member] =>
    show (check member).tell g path =
      if (check member).isOk || false then .ok ((), path) else (check member).tell g path
    cases check member <;> rfl
  | first :: second :: rest =>
    rw [checkUnion.eq_def]
    dsimp only [List.map_cons]
    split <;> rfl

theorem tell_checkItems (check : Json → Checked) (items : List Json) :
    Checked.tell g (checkItems check 0 items) =
      items.zipIdx.forM fun part => ((check part.1).tell g).inside (.index part.2) := by
  rw [checkItems_eq_forM, tell_forM]
  simp only [tell_under]

theorem tell_checkMembers (check : Json → Checked) (members : Dict Json) :
    Checked.tell g (checkMembers check members) =
      members.forM fun member => ((check member.2).tell g).inside (.member member.1) := by
  rw [checkMembers_eq_forM, tell_forM]
  simp only [tell_under]

theorem tell_checkFields (check : TypeId → Json → Checked) (members : Dict Json)
    (fields : List Field) :
    Checked.tell g (checkFields check members fields) =
      fields.forM (trackField g (fun id value => (check id value).tell g) members) := by
  have hfield (field : Field) : Checked.tell g (checkField check members field) =
      trackField g (fun id value => (check id value).tell g) members field := by
    rw [checkField, trackField]
    cases Dict.get? members field.name with
    | some part => exact tell_under _
    | none =>
      dsimp only
      cases field.required <;> simp
  rw [checkFields_eq_forM, tell_forM]
  simp only [hfield]

/-- **Both walks find the same.** -/
theorem trackWithin_eq (n : Nat) (id : TypeId) (value : Json) :
    trackWithin g n id value = (checkWithin g n id value).tell g := by
  induction n generalizing id value with
  | zero => rfl
  | succ n ih =>
    have ih' : trackWithin g n = fun id value => (checkWithin g n id value).tell g :=
      funext fun id => funext fun value => ih id value
    rw [trackWithin.eq_def, checkWithin.eq_def]
    dsimp only
    rw [ih']
    cases g.kind id with
    | unknown => rfl
    | primitive p => exact (tell_ite (.otherKind id value)).symm
    | enumeration values => exact (tell_ite (.unlisted id value)).symm
    | array item =>
      cases value with
      | array items => exact (tell_checkItems _ items).symm
      | _ => simp
    | map entry =>
      cases value with
      | object members => exact (tell_checkMembers _ members).symm
      | _ => simp
    | object fields =>
      cases value with
      | object members => exact (tell_checkFields _ members fields).symm
      | _ => simp
    | union members => rw [tell_checkUnion, tell_problemHere]

/-- A check that passes leaves the text as it was. -/
theorem eq_of_tell {before after : String} (h : outcome.tell g before = .ok ((), after)) :
    after = before := by
  cases outcome with
  | ok u =>
    cases h
    rfl
  | error m => cases h

end Tracking

/-- **A mismatch is real, and the first.**  Its message starts with the way from the value to a
part.  The walk descends along this way, past nothing but items, entries and fields that pass, to a
node at which the part fails by itself, of the problem that the message tells, so the part does not
pass there when it is checked alone either, and does not conform.  A walk that has one text for the
way has the same message, and each of its checks that passes leaves the text as it was, with the
step to what is checked or without it. -/
theorem check_reports_first {m : Mismatch} (hg : g.Closed) (hid : id < g.size)
    (h : check g id value = .error m) :
    m.message g = "$" ++ String.join (m.path.map Step.text) ++ ": " ++ m.problem.message g ∧
      (∃ left node last, node < g.size ∧ PartAt value m.path last ∧
        Descends g (depthLimit + 1) id value m.path (left + 1) node last ∧
        Fails g left node last m.problem ∧
        check g node last ≠ .ok () ∧ ¬Conforms g node last) ∧
      trackWithin g (depthLimit + 1) id value "$" = .error (m.message g) ∧
      ∀ steps node part before after,
        (trackWithin g steps node part before = .ok ((), after) → after = before) ∧
        ∀ step, (trackWithin g steps node part).inside step before = .ok ((), after) →
          after = before := by
  refine ⟨rfl, ?_, ?_,
    fun steps node part before after => ⟨fun hpasses => ?_, fun step hpasses => ?_⟩⟩
  · obtain ⟨left, node, last, hdescends, hfails⟩ := checkWithin_eq_error_iff.1 h
    have hne : check g node last ≠ .ok () :=
      hfails.check_ne_ok (Nat.le_of_succ_le_succ hdescends.le)
    exact ⟨left, node, last, hdescends.lt hg hid, hdescends.partAt, hdescends, hfails, hne,
      fun hconforms => hne hconforms.check⟩
  · rw [trackWithin_eq, show checkWithin g (depthLimit + 1) id value = .error m from h]
    rfl
  · rw [trackWithin_eq] at hpasses
    exact eq_of_tell hpasses
  · rw [trackWithin_eq, ← tell_under] at hpasses
    exact eq_of_tell hpasses

/-- Lists of films that may have a sequel, by an alias. -/
def filmLists : TypeGraph :=
  ⟨#[⟨none, .primitive .number, none⟩, ⟨none, .primitive .string, none⟩,
      ⟨some "Film",
        .object [⟨"id", 0, true, none⟩, ⟨"title", 1, true, none⟩, ⟨"sequel", 3, false, none⟩],
        none⟩,
      ⟨some "Sequel", .union [2], none⟩, ⟨none, .array 2, none⟩],
    [("Film", 2), ("Sequel", 3)]⟩

/-- A list of one film, with a sequel that has no title. -/
def untitledSequel : Json :=
  .array [.object [("id", .number (.integer 1)), ("sequel", .object [("id", .number (.integer 2))]),
    ("title", .string "First")]]

theorem check_reports_first_filmLists :
    filmLists.Closed ∧ 4 < filmLists.size ∧
      check filmLists 4 untitledSequel = .error ⟨[.index 0, .member "sequel"], .missing "title"⟩ ∧
      trackWithin filmLists (depthLimit + 1) 4 untitledSequel "$" =
        .error "$[0].sequel: missing required field `title`" := by
  have hclosed : filmLists.Closed := by unfold TypeGraph.Closed; decide
  have hchecked : check filmLists 4 untitledSequel =
      .error ⟨[.index 0, .member "sequel"], .missing "title"⟩ := rfl
  have htold := (check_reports_first hclosed (by decide) hchecked).2.2.1
  exact ⟨hclosed, by decide, hchecked, htold.trans (congrArg Except.error (by decide))⟩

end TypedClient.Types
