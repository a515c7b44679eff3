import Mathlib.Algebra.Group.Nat.Defs
import TypedClient.Json.Decode
import TypedClient.Proofs.Dictionaries
import TypedClient.Proofs.Yields

/-!
# What decoding yields

What is decoded of the parts of a value has the properties that decoding a part gives.  These are
the rules for lists, dictionaries and the fields of records.

The value may have a property that its parts have as well, which is passed on to their decoders;
`Inherited` is what this asks of the property.

* `Json.fieldOf?` is the value of a field, which stands under its name in an object and at its place
  in a list;
* `yields_find?`, `Record.yields_isSome` and `yields_entries` say that a record has these fields,
  that an optional field is found just if it is there and not null, and that a dictionary has the
  members of an object.
-/

set_option autoImplicit false

namespace TypedClient

/-- A property that a value passes on to its items and members, and that texts do not disturb. -/
structure Inherited (P : Json → Prop) : Prop where
  /-- It is passed on to items. -/
  items : ∀ items, P (.array items) → ∀ item ∈ items, P item
  /-- It is passed on to members. -/
  members : ∀ members, P (.object members) → ∀ member ∈ members, P member.2
  /-- It is kept when a member becomes a text. -/
  insert : ∀ members key text, P (.object members) →
    P (.object (Dict.insert members key (.string text)))

theorem inherited_true : Inherited fun _ => True :=
  ⟨fun _ _ _ _ => trivial, fun _ _ _ _ => trivial, fun _ _ _ _ => trivial⟩

variable {α : Type} {P : Json → Prop} {Q : α → Prop}

theorem yields_items (hP : Inherited P) {value : Json} (h : P value) :
    Yields value.items fun items => ∀ item ∈ items, P item.1 := by
  cases value with
  | array items =>
    refine yields_ok fun part hpart => ?_
    obtain ⟨item, -, rfl⟩ := List.mem_map.1 hpart
    exact hP.items items h item.1 item.2
  | _ => exact yields_error _

theorem yields_members (hP : Inherited P) {value : Json} (h : P value) :
    Yields value.members fun members => ∀ member ∈ members, P member.2.1 := by
  cases value with
  | object members =>
    refine yields_ok fun part hpart => ?_
    obtain ⟨member, -, rfl⟩ := List.mem_map.1 hpart
    exact hP.members members h member.1 member.2
  | _ => exact yields_error _

theorem yields_list (hP : Inherited P) {decode : Json → Decoded α}
    (hdecode : ∀ value, P value → Yields (decode value) Q) {value : Json} (h : P value) :
    Yields (value.list decode) fun items => ∀ item ∈ items, Q item :=
  (yields_items hP h).bind fun _ hitems => Yields.mapM fun part hpart =>
    hdecode part.1 (hitems part hpart)

theorem yields_dict (hP : Inherited P) {decode : Json → Decoded α}
    (hdecode : ∀ value, P value → Yields (decode value) Q) {value : Json} (h : P value) :
    Yields (value.dict decode) fun d => ∀ entry ∈ d, Q entry.2 := by
  refine (yields_members hP h).bind fun members hmembers => ?_
  refine (Yields.mapM (S := fun entry => Q entry.2) fun member hmember => ?_).bind
    fun entries hentries => yields_pure fun entry hentry =>
      hentries entry (Dict.mem_of_mem_ofList hentry)
  exact (hdecode member.2.1 (hmembers member hmember)).bind fun _ hvalue => yields_pure hvalue

/-- A dictionary is in order. -/
theorem yields_ordered (decode : Json → Decoded α) (value : Json) :
    Yields (value.dict decode) Dict.Ordered :=
  (yields_true _).bind fun _ _ => (yields_true _).bind fun entries _ =>
    yields_pure (Dict.ordered_ofList entries)

/-- A natural number that is decoded has the bits that it may have. -/
theorem yields_natural (bits : Nat) (value : Json) :
    Yields (value.natural bits) fun n => n < 2 ^ bits := by
  rw [Json.natural.eq_def]
  dsimp only
  split
  · split
    · rename_i hrange
      refine yields_ok ?_
      have hlt : ((2 ^ bits : Nat) : Int) = Number.twoTo bits := rfl
      omega
    · exact yields_error _
  · exact yields_error _

/-- The fields of the record have the property. -/
def Record.AllParts {whole : Json} (P : Json → Prop) (r : Record whole) : Prop :=
  ∀ entry ∈ r.entries, P entry.2.1

theorem yields_fields (hP : Inherited P) (type : String) (names : List String) (closed : Bool)
    {value : Json} (h : P value) : Yields (value.fields type names closed) (Record.AllParts P) := by
  rw [Json.fields.eq_def]
  split
  · refine (yields_members hP h).bind fun entries hentries => ?_
    split
    · exact yields_error _
    · dsimp only
      split
      · exact yields_error _
      · exact yields_ok fun entry hentry => hentries entry (List.mem_filter.1 hentry).1
  · refine (yields_items hP h).bind fun parts hparts => ?_
    split
    · exact yields_error _
    · exact yields_ok fun entry hentry => hparts entry.2 (List.of_mem_zip hentry).2
  · exact yields_error _

namespace Record

variable {whole : Json} {r : Record whole}

theorem yields_required (r : Record whole) (name : String) {decode : Json.Part whole → Decoded α}
    (h : ∀ part, Yields (decode part) Q) : Yields (r.required name decode) Q := by
  rw [required]
  split
  · exact h _
  · exact yields_error _

theorem AllParts.find? (hr : r.AllParts P) {name : String} {part : Json.Part whole}
    (h : r.find? name = some part) : P part.1 := by
  obtain ⟨before, after, hentries, -⟩ := List.lookup_eq_some_iff.1 h
  exact hr (name, part) (hentries ▸ List.mem_append_right _ List.mem_cons_self)

theorem AllParts.yields_defaulted (hr : r.AllParts P) (name : String) {missing : α}
    (hmissing : Q missing) {decode : Json.Part whole → Decoded α}
    (h : ∀ part, P part.1 → Yields (decode part) Q) :
    Yields (r.defaulted name missing decode) Q := by
  rw [defaulted]
  split
  · rename_i part hpart
    exact h part (hr.find? hpart)
  · exact yields_ok hmissing

theorem AllParts.yields_optional (hr : r.AllParts P) (name : String)
    {decode : Json.Part whole → Decoded α} (h : ∀ part, P part.1 → Yields (decode part) Q) :
    Yields (r.optional name decode) fun found => ∀ value, found = some value → Q value := by
  rw [optional]
  split
  · exact yields_ok fun _ hvalue => nomatch hvalue
  · exact yields_ok fun _ hvalue => nomatch hvalue
  · rename_i part _ hpart
    refine (h _ (hr.find? hpart)).map fun value hvalue other hother => ?_
    rwa [← Option.some.inj hother]

theorem yields_optional (r : Record whole) (name : String) {decode : Json.Part whole → Decoded α}
    (h : ∀ part, Yields (decode part) Q) :
    Yields (r.optional name decode) fun found => ∀ value ∈ found, Q value :=
  AllParts.yields_optional (P := fun _ => True) (fun _ _ => trivial) name fun part _ => h part

end Record

end TypedClient

/-! ## Which fields a value has -/

namespace TypedClient

variable {α : Type}

/-- The value of a field: in an object the member of its name, in a list the item at its place among
the names. -/
def Json.fieldOf? (names : List String) : Json → String → Option Json
  | .object members, name => Dict.get? members name
  | .array values, name => Dict.get? (names.zip values) name
  | _, _ => none

/-- A value opened as a record has its fields. -/
theorem yields_find? (type : String) (names : List String) (closed : Bool) (value : Json) :
    Yields (value.fields type names closed) fun r =>
      ∀ name ∈ names, (r.find? name).map Subtype.val = value.fieldOf? names name := by
  rw [Json.fields.eq_def]
  split
  · rename_i members
    refine (yields_self _).bind fun entries hentries => ?_
    split
    · exact yields_error _
    · dsimp only
      split
      · exact yields_error _
      · refine yields_ok fun name hname => ?_
        cases hentries
        change (Dict.get? (List.filter (fun entry => names.contains entry.1) _) name).map _ = _
        rw [Dict.get?_filter _ _ (List.contains_iff_mem.2 hname), ← Dict.get?_map, List.map_map]
        exact congrArg (Dict.get? · name) (List.attach_map_subtype_val members)
  · rename_i values
    refine (yields_self _).bind fun parts hparts => ?_
    split
    · exact yields_error _
    · refine yields_ok fun name _ => ?_
      cases hparts
      change (Dict.get? (names.zip _) name).map _ = Dict.get? (names.zip values) name
      have hvalues : (values.attach.map fun item =>
          (⟨item.1, Json.sizeOf_lt_of_mem_array item.2⟩ : Json.Part (.array values))).map
            Subtype.val = values := by
        rw [List.map_map]
        exact List.attach_map_subtype_val values
      rw [← Dict.get?_map]
      conv_rhs => rw [← hvalues, List.zip_map_right]
      rfl
  · exact yields_error _

/-- An optional field is found just if it is there and not null. -/
theorem Record.yields_isSome {whole : Json} (r : Record whole) (name : String)
    (decode : Json.Part whole → Decoded α) :
    Yields (r.optional name decode) fun found =>
      found.isSome = ((r.find? name).map Subtype.val).any (!·.isNull) := by
  rw [optional]
  split
  · rename_i hpart
    rw [hpart]
    exact yields_ok rfl
  · rename_i hpart
    rw [hpart]
    exact yields_ok rfl
  · rename_i part hnull hpart
    rw [hpart]
    refine (yields_true (decode part)).map fun value _ => ?_
    obtain ⟨part, hsize⟩ := part
    cases part with
    | null => exact (hnull hsize rfl).elim
    | _ => rfl

/-- A dictionary has the members of the object it is read from, each as it is decoded. -/
theorem yields_entries (decode : Json → Decoded α) (value : Json) :
    Yields (value.dict decode) fun d => ∃ members, value = .object members ∧
      List.Forall₂ (Dict.Alike fun member found => decode member = .ok found)
        (Dict.ofList members) d := by
  cases value with
  | object members =>
    refine (Yields.mapM_forall₂ (R := fun member entry =>
      Dict.Alike (fun part found => decode part.1 = .ok found) member entry)
        fun member _ => ?_).bind
      fun entries hentries => yields_pure ⟨members, rfl, Dict.forall₂_ofList ?_⟩
    · exact (yields_self _).bind fun found hfound => yields_pure ⟨rfl, hfound⟩
    · have hmembers := List.forall₂_map_left_iff.1 hentries
      rw [← List.attach_map_subtype_val members]
      exact List.forall₂_map_left_iff.2 hmembers
  | _ => exact yields_error _

end TypedClient
