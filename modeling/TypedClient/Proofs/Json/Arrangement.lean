import Mathlib.Data.List.Perm.Basic
import TypedClient.Json.Basic
import TypedClient.Proofs.Json.Decoding
import TypedClient.Proofs.Lists

/-!
# Reading back what was written

A record is written as an object, and the members of an object may stand in any order: that of the
fields, or that of their names, as in a canonical value.

* `Arranges` says of a function that it changes nothing but the order of members.  Leaving
  everything as it is is one (`arranges_id`), and making values canonical another
  (`arranges_canonical`);
* `Recovers` says that a value is read back, whatever its members have been arranged to; there is
  one lemma for each way of writing;
* `Opened` says of a record which fields it has, and `exists_opened` that a value that was written
  with these fields is opened as such a record.
-/

set_option autoImplicit false

namespace TypedClient

open Json

variable {α : Type}

/-- The members of objects get some order, and nothing else changes. -/
structure Arranges (f : Json → Json) : Prop where
  /-- Null stays. -/
  null : f .null = .null
  /-- Truth values stay. -/
  bool : ∀ b, f (.bool b) = .bool b
  /-- Numbers stay. -/
  number : ∀ n, f (.number n) = .number n
  /-- Texts stay. -/
  string : ∀ s, f (.string s) = .string s
  /-- Lists stay, but for their items. -/
  array : ∀ items, f (.array items) = .array (items.map f)
  /-- Members of different names change places. -/
  object : ∀ members, (members.map Prod.fst).Nodup → ∃ arranged,
    f (.object members) = .object arranged ∧ arranged.Perm (members.map fun m => (m.1, f m.2))

theorem arranges_id : Arranges id where
  null := rfl
  bool _ := rfl
  number _ := rfl
  string _ := rfl
  array items := congrArg Json.array (List.map_id items).symm
  object members _ := ⟨members, rfl, by simp⟩

theorem canonicalItems_eq (items : List Json) : canonicalItems items = items.map canonical := by
  induction items with
  | nil => rfl
  | cons item items ih => rw [canonicalItems, ih, List.map_cons]

theorem canonicalMembers_eq (members : List (String × Json)) :
    canonicalMembers members = members.map fun m => (m.1, canonical m.2) := by
  induction members with
  | nil => rfl
  | cons member members ih => rw [canonicalMembers, ih, List.map_cons]

theorem arranges_canonical : Arranges canonical where
  null := rfl
  bool _ := rfl
  number _ := rfl
  string _ := rfl
  array items := by rw [canonical, canonicalItems_eq]
  object members hmembers := by
    refine ⟨_, rfl, ?_⟩
    rw [canonicalMembers_eq]
    refine Dict.perm_ofList ?_
    rwa [List.map_map]

/-- A value is read back from what was written for it. -/
def Recovers (f : Json → Json) (encode : α → Json) (decode : Json → Decoded α) (a : α) : Prop :=
  decode (f (encode a)) = .ok a

variable {f : Json → Json} {encode : α → Json} {decode : Json → Decoded α}

/-! ## Scalars and lists -/

/-- What succeeds on every item gives the list of results. -/
theorem mapM_eq_ok {β ε : Type} {g : α → Except ε β} {h : α → β} {xs : List α}
    (hxs : ∀ x ∈ xs, g x = .ok (h x)) : xs.mapM g = .ok (xs.map h) := by
  induction xs with
  | nil => rfl
  | cons x xs ih =>
    obtain ⟨hx, hrest⟩ := List.forall_mem_cons.1 hxs
    rw [List.mapM_cons, hx, ih hrest]
    rfl

/-- A walk over items that carry the proof of where they are from is one over the items. -/
theorem mapM_attach {β ε : Type} (g : α → Except ε β) (xs : List α) :
    xs.attach.mapM (fun x => g x.1) = xs.mapM g := by
  conv_rhs => rw [← List.attach_map_subtype_val xs, List.mapM_map]
  rfl

/-- A list is decoded item by item. -/
theorem list_array (decode : Json → Decoded α) (items : List Json) :
    list decode (.array items) = items.mapM decode := by
  simp only [list, Json.items, bind, Except.bind, List.mapM_map]
  exact mapM_attach decode items

/-- A dictionary is decoded member by member. -/
theorem dict_object (decode : Json → Decoded α) (members : List (String × Json)) :
    dict decode (.object members) = (members.mapM fun member : String × Json => (do
      return (member.1, ← decode member.2) : Decoded (String × α))).map Dict.ofList := by
  have hmembers := mapM_attach (fun member : String × Json => (do
    return (member.1, ← decode member.2) : Decoded (String × α))) members
  simp only [dict, Json.members, bind, Except.bind, List.mapM_map] at hmembers ⊢
  rw [← hmembers]
  rfl

namespace Arranges

variable (hf : Arranges f)

include hf

theorem recovers_text (s : String) : Recovers f .string text s := by
  rw [Recovers, hf.string]
  rfl

theorem recovers_flag (b : Bool) : Recovers f .bool flag b := by
  rw [Recovers, hf.bool]
  rfl

theorem recovers_natural {bits n : Nat} (h : n < 2 ^ bits) :
    Recovers f .ofNat (natural bits) n := by
  have hrange : (0 : Int) ≤ n ∧ (n : Int) < Number.twoTo bits := by
    rw [Number.twoTo]
    exact ⟨Int.natCast_nonneg n, Int.ofNat_lt.2 h⟩
  rw [Recovers, ofNat, hf.number, natural]
  exact if_pos hrange

/-- A name of a choice is read as what it stands for. -/
theorem recovers_choice (name : α → String) {options : List (String × α)} {a : α}
    (h : options.lookup (name a) = some a) :
    Recovers f (fun a => .string (name a)) (choice options) a := by
  rw [Recovers, hf.string]
  simp only [choice, tagged, bind, Except.bind, h]

theorem recovers_list {items : List α} (h : ∀ a ∈ items, Recovers f encode decode a) :
    Recovers f (ofList encode) (list decode) items := by
  rw [Recovers, ofList, hf.array, list_array, List.map_map, List.mapM_map]
  exact (mapM_eq_ok (h := id) h).trans (by rw [List.map_id])

/-- A dictionary is read back in order. -/
theorem recovers_dict {d : Dict α} (hd : Dict.Ordered d)
    (h : ∀ entry ∈ d, Recovers f encode decode entry.2) :
    Recovers f (ofDict encode) (dict decode) d := by
  have hnodup : ((d.map fun entry => (entry.1, encode entry.2)).map Prod.fst).Nodup := by
    rw [List.map_map]
    exact hd.nodup
  obtain ⟨arranged, hobject, hperm⟩ := hf.object _ hnodup
  rw [List.map_map] at hperm
  obtain ⟨entries, rfl, hentries⟩ : Relation.Comp _ List.Perm arranged d :=
    (congrFun₂ (List.eq_map_comp_perm _) arranged d).mpr hperm
  have hdecoded : entries.mapM (fun entry => do return (entry.1, ← decode (f (encode entry.2)))) =
      .ok entries := by
    refine (mapM_eq_ok (h := id) fun entry hentry => ?_).trans (by rw [List.map_id])
    rw [h entry (hentries.subset hentry)]
    rfl
  rw [Recovers, ofDict, hobject, dict_object, List.mapM_map]
  exact (congrArg (Except.map Dict.ofList) hdecoded).trans
    (congrArg Except.ok (Dict.ofList_eq_of_perm hd hentries))

/-- An object with one member stays as it is. -/
theorem singleton (name : String) (value : Json) :
    f (.object [(name, value)]) = .object [(name, f value)] := by
  obtain ⟨arranged, hobject, hperm⟩ := hf.object [(name, value)] (List.nodup_singleton _)
  rw [hobject, List.perm_singleton.1 hperm]

/-- What is written under a name is taken apart into the name and what it was written for. -/
theorem exists_tagged (tag : String) (value : Json) :
    ∃ part, tagged (f (.object [(tag, value)])) = .ok (tag, some part) ∧ part.1 = f value := by
  rw [hf.singleton]
  exact ⟨_, rfl, rfl⟩

end Arranges

/-! ## Records -/

/-- The members that are written for fields: one for each that has a value. -/
def written (fields : List (String × Option Json)) : List (String × Json) :=
  fields.filterMap fun field => field.2.map (field.1, ·)

theorem keys_written_sublist (fields : List (String × Option Json)) :
    ((written fields).map Prod.fst).Sublist (fields.map Prod.fst) := by
  induction fields with
  | nil => exact .slnil
  | cons field fields ih =>
    obtain ⟨name, value⟩ := field
    cases value with
    | none => exact .cons name ih
    | some value => exact .cons_cons name ih

theorem firstDuplicate?_eq_none {names : List String} (h : names.Nodup) :
    firstDuplicate? names = none := by
  induction names with
  | nil => rfl
  | cons name names ih =>
    obtain ⟨hname, hnames⟩ := List.nodup_cons.1 h
    rw [firstDuplicate?, if_neg (by simpa using hname), ih hnames]

/-- An object whose members are different fields is opened as a record. -/
theorem exists_fields (type : String) {names : List String} (closed : Bool)
    {members : List (String × Json)} (hnodup : (members.map Prod.fst).Nodup)
    (hnames : ∀ name ∈ members.map Prod.fst, name ∈ names) :
    ∃ r, (Json.object members).fields type names closed = .ok r := by
  have hkeys : (members.attach.map fun member => (member.1.1,
      (⟨member.1.2, sizeOf_lt_of_mem_object member.2⟩ : Part (.object members)))).map Prod.fst =
        members.map Prod.fst := by
    rw [List.map_map]
    exact (List.map_map (g := Prod.fst) (f := Subtype.val)).symm.trans
      (congrArg _ (List.attach_map_subtype_val members))
  simp only [Json.fields, Json.members, bind, Except.bind]
  generalize (members.attach.map fun member => (member.1.1,
      (⟨member.1.2, sizeOf_lt_of_mem_object member.2⟩ : Part (.object members)))) =
        entries at hkeys ⊢
  rw [← hkeys] at hnodup hnames
  have hknown : ∀ entry ∈ entries, names.contains entry.1 = true := fun entry hentry =>
    List.contains_iff_mem.2 (hnames entry.1 (List.mem_map_of_mem hentry))
  have hfind : (entries.find? fun entry => closed && !names.contains entry.1) = none :=
    List.find?_eq_none.2 fun entry hentry => by rw [hknown entry hentry]; simp
  rw [hfind, List.filter_eq_self.2 hknown, firstDuplicate?_eq_none hnodup]
  exact ⟨_, rfl⟩

/-- A record has these fields, each with the value that was written for it, if there is one. -/
def Opened (f : Json → Json) (fields : List (String × Option Json)) {whole : Json}
    (r : Record whole) :
    Prop := ∀ field ∈ fields, (r.find? field.1).map Subtype.val = field.2.map f

/-- **What was written for the fields of a record is opened as the record.** -/
theorem exists_opened (hf : Arranges f) (type : String) (names : List String) (closed : Bool)
    (fields : List (String × Option Json)) (hnames : fields.map Prod.fst = names)
    (hnodup : names.Nodup) :
    ∃ r, (f (.object (written fields))).fields type names closed = .ok r ∧ Opened f fields r := by
  subst hnames
  have hsub := keys_written_sublist fields
  obtain ⟨arranged, hobject, hperm⟩ := hf.object _ (hsub.nodup hnodup)
  have hkeys : (arranged.map Prod.fst).Perm ((written fields).map Prod.fst) := by
    have hmap := hperm.map Prod.fst
    rwa [List.map_map] at hmap
  have hdistinct : (arranged.map Prod.fst).Nodup := hkeys.nodup_iff.2 (hsub.nodup hnodup)
  obtain ⟨r, hr⟩ := exists_fields type closed hdistinct
    fun name hname => hsub.subset (hkeys.subset hname)
  rw [hobject]
  refine ⟨r, hr, fun field hfield => ?_⟩
  rw [yields_find? type _ closed _ r hr field.1 (List.mem_map_of_mem hfield)]
  change Dict.get? arranged field.1 = _
  cases hvalue : field.2 with
  | some value =>
    refine Dict.get?_of_mem_of_nodup hdistinct
      (hperm.mem_iff.2 (List.mem_map.2 ⟨(field.1, value), ?_, rfl⟩))
    exact List.mem_filterMap.2 ⟨field, hfield, by rw [hvalue]; rfl⟩
  | none =>
    refine Dict.get?_eq_none_of_not_mem_keys fun hmem => ?_
    obtain ⟨entry, hentry, hname⟩ := List.mem_map.1 (hkeys.subset hmem)
    obtain ⟨other, hother, hwritten⟩ := List.mem_filterMap.1 hentry
    obtain ⟨value, hsome, rfl⟩ := Option.map_eq_some_iff.1 hwritten
    have hsame : other = field := List.inj_on_of_nodup_map hnodup hother hfield hname
    rw [hsame, hvalue] at hsome
    cases hsome

/-- An optional field that is there and not null is read as its value. -/
theorem Record.optional_of_present {whole : Json} {r : Record whole} {name : String} {a : α}
    {part : Part whole} (hpart : r.find? name = some part) (hread : decode part.1 = .ok a)
    (hnull : ∀ a, decode .null ≠ .ok a) :
    (r.optional name fun part => decode part.1) = .ok (some a) := by
  rw [optional, hpart]
  obtain ⟨part, hsize⟩ := part
  cases part with
  | null => exact absurd hread (hnull a)
  | _ => exact congrArg (Except.map some) hread

namespace Opened

variable {fields : List (String × Option Json)} {whole : Json} {r : Record whole}
  (h : Opened f fields r) (name : String)

include h

/-- A field that has to be present is read back. -/
theorem required {a : α} (hfield : (name, some (encode a)) ∈ fields)
    (ha : Recovers f encode decode a) : (r.required name fun part => decode part.1) = .ok a := by
  obtain ⟨part, hpart, hvalue⟩ := Option.map_eq_some_iff.1 (h _ hfield)
  rw [Record.required, hpart]
  dsimp only
  rw [hvalue]
  exact ha

/-- A field that may be missing is read back. -/
theorem optional (value : Option α) (hfield : (name, value.map encode) ∈ fields)
    (hnull : ∀ a, decode .null ≠ .ok a) (ha : ∀ a ∈ value, Recovers f encode decode a) :
    (r.optional name fun part => decode part.1) = .ok value := by
  have hfind := h _ hfield
  cases value with
  | none =>
    rw [Record.optional, Option.map_eq_none_iff.1 hfind]
  | some a =>
    obtain ⟨part, hpart, hvalue⟩ := Option.map_eq_some_iff.1 hfind
    exact Record.optional_of_present hpart ((congrArg decode hvalue).trans (ha a rfl)) hnull

/-- A field that is null if it is missing is read back. -/
theorem optional_ofOption (hf : Arranges f) (value : Option α)
    (hfield : (name, some (ofOption encode value)) ∈ fields) (hnull : ∀ a, decode .null ≠ .ok a)
    (ha : ∀ a ∈ value, Recovers f encode decode a) :
    (r.optional name fun part => decode part.1) = .ok value := by
  obtain ⟨part, hpart, hvalue⟩ := Option.map_eq_some_iff.1 (h _ hfield)
  cases value with
  | none =>
    obtain ⟨part, hsize⟩ := part
    obtain rfl : part = .null := hvalue.trans hf.null
    rw [Record.optional, hpart]
  | some a =>
    exact Record.optional_of_present hpart ((congrArg decode hvalue).trans (ha a rfl)) hnull

end Opened

end TypedClient
