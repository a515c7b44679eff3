import TypedClient.Proofs.Client.Precedence
import TypedClient.Proofs.Declaration.Lexing
import TypedClient.Proofs.Text.Lines
import TypedClient.Proofs.Text.Utf8
import TypedClient.Proofs.Url.Percent

/-!
# Queries and forms are read back

Arguments are written as pairs of key and text.  Whatever characters these consist of, the pairs
that are read from the text are the pairs of the arguments, one for each scalar in them.

* `readForm` reads the text of a form, and `readForm_formText` says that it reads what is written;
* `scalars` are the scalars in a value with their places; `depthFirst_scalars` says that these are
  all of them, each once, in the order of a walk that goes down first, if members are in order, as
  in all values that are read (`inOrder_of_read`);
* `leaves_eq` says that they are what is written, with the names on the way in the key;
* `queries_read_back` says so for arguments, for forms in one line, and for the queries of all
  requests that leave a client, which are not changed any more.
-/

set_option autoImplicit false

namespace TypedClient.Client

open TypedClient.Api TypedClient.Text TypedClient.Types

/-! ## Reading forms -/

/-- A plus sign stands for a blank. -/
def blankForPlus (c : Char) : Char := if c = '+' then ' ' else c

/-- Reads a text in a form: its encoded bytes are decoded, and all of them are read as UTF-8. -/
def readFormText (text : List Char) : String :=
  decodeUtf8Lossy (Url.decode (Url.bytesOf (text.map blankForPlus)))

/-- Reads a pair, which is cut at the first equals sign; without one there is a key only. -/
def readFormPair (text : List Char) : String × String :=
  match cutAt? '=' text with
  | some (key, value) => (readFormText key, readFormText value)
  | none => (readFormText text, "")

/-- The pairs of a form, between the ampersands. -/
def readForm (text : String) : List (String × String) :=
  ((splitOn '&' text.toList).filter (!·.isEmpty)).map readFormPair

/-! ## Bytes in forms -/

/-- A character that a query shows as it is. -/
def IsShown (c : Char) : Prop :=
  c.toNat ≤ 0x7F ∧ Url.hiddenInQuery c = false ∧ Url.isSkipped c = false

instance (c : Char) : Decidable (IsShown c) := inferInstanceAs (Decidable (_ ∧ _ ∧ _))

/-- The character of a byte in a form is one that a query shows, and none that cuts the form. -/
theorem mem_formByte {n : Nat} (hn : n < 256) {c : Char} (hc : c ∈ formByte (UInt8.ofNat n)) :
    IsShown c ∧ c ≠ '&' ∧ c ≠ '=' := by
  have hall : ∀ n < 256, (formByte (UInt8.ofNat n)).all (fun c =>
      decide (IsShown c ∧ c ≠ '&' ∧ c ≠ '=')) = true := by decide +kernel
  exact of_decide_eq_true (List.all_eq_true.1 (hall n hn) c hc)

/-- A byte is written as itself or encoded; a blank is written as a plus sign. -/
theorem map_formByte : ∀ n < 256,
    ((formByte (UInt8.ofNat n)).map blankForPlus = [Char.ofNat n] ∧ (Char.ofNat n).toNat = n ∧
        n < 0x80 ∧ n ≠ 0x25) ∨
      (formByte (UInt8.ofNat n)).map blankForPlus = Url.encodeByte (UInt8.ofNat n) := by
  decide +kernel

theorem decode_formByte (b : UInt8) (rest : Bytes) :
    Url.decode (Url.bytesOf ((formByte b).map blankForPlus) ++ rest) = b :: Url.decode rest := by
  have hb : UInt8.ofNat b.toNat = b := UInt8.ofNat_toNat
  rcases map_formByte b.toNat b.toNat_lt with ⟨hplain, hchar, hless, hne⟩ | hencoded
  · rw [hb] at hplain
    -- a percent sign is always encoded, so a byte that stands for itself starts no encoded one
    have hpercent : b ≠ 0x25 := fun h => hne (congrArg UInt8.toNat h)
    rw [hplain, Url.bytesOf, List.flatMap_singleton, Url.utf8EncodeChar_of_le (by omega), hchar, hb,
      List.singleton_append, Url.decode_cons_of_ne hpercent]
  · rw [hb] at hencoded
    rw [hencoded, Url.decode_encodeByte]

theorem decode_formBytes (bytes : Bytes) :
    Url.decode (Url.bytesOf ((bytes.flatMap formByte).map blankForPlus)) = bytes := by
  induction bytes with
  | nil => exact Url.decode.eq_1
  | cons b bytes ih =>
    rw [List.flatMap_cons, List.map_append, Url.bytesOf_append, decode_formByte, ih]

/-- A text in a form is read back. -/
theorem readFormText_formEncode (s : String) : readFormText (formEncode s).toList = s := by
  rw [readFormText, formEncode, String.toList_ofList, decode_formBytes, decodeUtf8Lossy_encodeUtf8]

/-! ## Pairs -/

theorem mem_formEncode {s : String} {c : Char} (h : c ∈ (formEncode s).toList) :
    IsShown c ∧ c ≠ '&' ∧ c ≠ '=' := by
  rw [formEncode, String.toList_ofList] at h
  obtain ⟨b, -, hc⟩ := List.mem_flatMap.1 h
  rw [← UInt8.ofNat_toNat (x := b)] at hc
  exact mem_formByte b.toNat_lt hc

theorem toList_formPair (pair : String × String) : (formPair pair).toList =
    (formEncode pair.1).toList ++ '=' :: (formEncode pair.2).toList := by
  rw [formPair, String.toList_append, String.toList_append, List.append_assoc]
  rfl

theorem ampersand_notMem_formPair (pair : String × String) : '&' ∉ (formPair pair).toList := by
  rw [toList_formPair]
  intro h
  rcases List.mem_append.1 h with h | h
  · exact (mem_formEncode h).2.1 rfl
  · rcases List.mem_cons.1 h with h | h
    · cases h
    · exact (mem_formEncode h).2.1 rfl

/-- A pair in a form is read back. -/
theorem readFormPair_formPair (pair : String × String) :
    readFormPair (formPair pair).toList = pair := by
  have hkey : '=' ∉ (formEncode pair.1).toList := fun h => (mem_formEncode h).2.2 rfl
  rw [readFormPair, toList_formPair, cutAt?_append hkey]
  simp only [readFormText_formEncode]

theorem toList_formText (pairs : List (String × String)) :
    (formText pairs).toList = ['&'].intercalate (pairs.map fun pair => (formPair pair).toList) := by
  rw [formText, String.toList_intercalate, List.map_map]
  rfl

/-- **A form is read back**, pair by pair. -/
theorem readForm_formText (pairs : List (String × String)) : readForm (formText pairs) = pairs := by
  rw [readForm, toList_formText]
  by_cases hpairs : pairs = []
  · rw [hpairs]
    rfl
  · have hparts : splitOn '&' (['&'].intercalate (pairs.map fun pair => (formPair pair).toList)) =
        pairs.map fun pair => (formPair pair).toList :=
      splitOn_intercalate_of_notMem (by simpa using hpairs)
        (List.forall_mem_map.2 fun pair _ => ampersand_notMem_formPair pair)
    have hkept : (pairs.map fun pair => (formPair pair).toList).filter (!·.isEmpty) =
        pairs.map fun pair => (formPair pair).toList :=
      List.filter_eq_self.2 (List.forall_mem_map.2 fun pair _ => by simp [toList_formPair])
    have hread (pair : String × String) :
        (readFormPair ∘ fun pair => (formPair pair).toList) pair = pair := by
      rw [Function.comp_apply, readFormPair_formPair]
    rw [hparts, hkept, List.map_map]
    exact List.map_id'' hread pairs

/-! ## Scalars in a value -/

/-- One step into a value. -/
inductive Step where
  /-- To an item of a list. -/
  | item (index : Nat)
  /-- To a member of an object. -/
  | member (name : String)

/-- Whether a step comes before another one of the same kind. -/
inductive Step.Before : Step → Step → Prop
  /-- Items come in order. -/
  | item {i j : Nat} (h : i < j) : Before (.item i) (.item j)
  /-- Members come in the order of their names. -/
  | member {a b : String} (h : a < b) : Before (.member a) (.member b)

/-- A text, a number or a truth value is at a place in a value. -/
inductive ScalarAt : Json → List Step → Json → Prop
  /-- The value is a scalar itself. -/
  | here {value : Json} (h : isScalar value = true) : ScalarAt value [] value
  /-- It is in an item. -/
  | item {items : List Json} {i : Nat} {item leaf : Json} {place : List Step}
    (hitem : items[i]? = some item) (h : ScalarAt item place leaf) :
    ScalarAt (.array items) (.item i :: place) leaf
  /-- It is in a member. -/
  | member {members : List (String × Json)} {name : String} {value leaf : Json} {place : List Step}
    (hmember : (name, value) ∈ members) (h : ScalarAt value place leaf) :
    ScalarAt (.object members) (.member name :: place) leaf

/-- The members of every object in a value are in the order of their names. -/
inductive InOrder : Json → Prop
  /-- Null has none. -/
  | null : InOrder .null
  /-- Scalars have none. -/
  | scalar {value : Json} (h : isScalar value = true) : InOrder value
  /-- The items are in order. -/
  | array {items : List Json} (h : ∀ item ∈ items, InOrder item) : InOrder (.array items)
  /-- The members are, and so are their values. -/
  | object {members : List (String × Json)} (hnames : Dict.Ordered members)
    (h : ∀ member ∈ members, InOrder member.2) : InOrder (.object members)

/-- A place and a scalar, one step further down. -/
def below (step : Step) (entry : List Step × Json) : List Step × Json := (step :: entry.1, entry.2)

mutual

/-- The scalars in a value, with their places. -/
def scalars : Json → List (List Step × Json)
  | .null => []
  | .array items => scalarsOfItems 0 items
  | .object members => scalarsOfMembers members
  | value => [([], value)]

/-- The scalars in the items of a list. -/
def scalarsOfItems (i : Nat) : List Json → List (List Step × Json)
  | [] => []
  | item :: rest => (scalars item).map (below (.item i)) ++ scalarsOfItems (i + 1) rest

/-- The scalars in the members of an object. -/
def scalarsOfMembers : List (String × Json) → List (List Step × Json)
  | [] => []
  | (name, value) :: rest => (scalars value).map (below (.member name)) ++ scalarsOfMembers rest

end

/-- The list has all scalars in a value, each once, in the order of a walk that goes down first. -/
structure DepthFirst (value : Json) (entries : List (List Step × Json)) : Prop where
  /-- There are just the scalars in the value. -/
  mem_iff : ∀ place leaf, (place, leaf) ∈ entries ↔ ScalarAt value place leaf
  /-- Their places increase, step by step. -/
  increasing : (entries.map Prod.fst).Pairwise (List.Lex Step.Before)

/-- The key of a scalar: the names on the way to it stand in brackets behind the key of the
value. -/
def keyAt (key : String) : List Step → String
  | [] => key
  | .item _ :: place => keyAt key place
  | .member name :: place => keyAt (key ++ "[" ++ name ++ "]") place

/-- The pairs of an argument, one for each scalar. -/
def flattened (key : String) (value : Json) : List (String × String) :=
  (scalars value).map fun entry => (keyAt key entry.1, scalarText entry.2)

mutual

/-- An argument is taken apart into its scalars. -/
theorem leaves_eq : ∀ (key : String) (value : Json), leaves key value = flattened key value
  | _, .null | _, .bool _ | _, .number _ | _, .string _ => rfl
  | key, .array items => leavesOfItems_eq key items 0
  | key, .object members => leavesOfMembers_eq key members

theorem leavesOfItems_eq : ∀ (key : String) (items : List Json) (i : Nat), leavesOfItems key items =
    (scalarsOfItems i items).map fun entry => (keyAt key entry.1, scalarText entry.2)
  | _, [], _ => rfl
  | key, item :: rest, i => by
    rw [leavesOfItems, scalarsOfItems, leaves_eq key item, leavesOfItems_eq key rest (i + 1),
      List.map_append, List.map_map]
    rfl

theorem leavesOfMembers_eq : ∀ (key : String) (members : List (String × Json)),
    leavesOfMembers key members =
      (scalarsOfMembers members).map fun entry => (keyAt key entry.1, scalarText entry.2)
  | _, [] => rfl
  | key, (name, value) :: rest => by
    rw [leavesOfMembers, scalarsOfMembers, leaves_eq _ value, leavesOfMembers_eq key rest,
      List.map_append, List.map_map]
    rfl

end

theorem scalars_of_isScalar {value : Json} (h : isScalar value = true) :
    scalars value = [([], value)] := by
  cases value with
  | null | array | object => cases h
  | bool | number | string => rfl

theorem scalarAt_of_isScalar {value leaf : Json} {place : List Step} (h : isScalar value = true) :
    ScalarAt value place leaf ↔ place = [] ∧ leaf = value := by
  constructor
  · intro hleaf
    cases hleaf with
    | here => exact ⟨rfl, rfl⟩
    | item | member => cases h
  · rintro ⟨rfl, rfl⟩
    exact .here h

theorem mem_map_below {step : Step} {entries : List (List Step × Json)} {place : List Step}
    {leaf : Json} : (place, leaf) ∈ entries.map (below step) ↔
      ∃ rest, place = step :: rest ∧ (rest, leaf) ∈ entries := by
  rw [List.mem_map]
  constructor
  · rintro ⟨⟨rest, value⟩, hentry, heq⟩
    cases heq
    exact ⟨rest, rfl, hentry⟩
  · rintro ⟨rest, rfl, hentry⟩
    exact ⟨_, hentry, rfl⟩

mutual

/-- The scalars are those in the value, at their places. -/
theorem mem_scalars_iff : ∀ {value : Json} {place : List Step} {leaf : Json},
    (place, leaf) ∈ scalars value ↔ ScalarAt value place leaf
  | .null, _, _ => iff_of_false (fun h => nomatch h) fun h => by
    cases h with
    | here h => cases h
  | .bool _, _, _ | .number _, _, _ | .string _, _, _ => by
    rw [scalars_of_isScalar rfl, scalarAt_of_isScalar rfl, List.mem_singleton, Prod.mk.injEq]
  | .array items, place, leaf => by
    rw [scalars, mem_scalarsOfItems_iff]
    constructor
    · rintro ⟨j, item, rest, hitem, rfl, hleaf⟩
      rw [Nat.zero_add]
      exact .item hitem hleaf
    · intro h
      cases h with
      | here h => cases h
      | item hitem hleaf => exact ⟨_, _, _, hitem, by rw [Nat.zero_add], hleaf⟩
  | .object members, place, leaf => by
    rw [scalars, mem_scalarsOfMembers_iff]
    constructor
    · rintro ⟨name, value, rest, hmember, rfl, hleaf⟩
      exact .member hmember hleaf
    · intro h
      cases h with
      | here h => cases h
      | member hmember hleaf => exact ⟨_, _, _, hmember, rfl, hleaf⟩

theorem mem_scalarsOfItems_iff : ∀ {items : List Json} {i : Nat} {place : List Step} {leaf : Json},
    (place, leaf) ∈ scalarsOfItems i items ↔ ∃ j item rest, items[j]? = some item ∧
      place = .item (i + j) :: rest ∧ ScalarAt item rest leaf
  | [], _, _, _ => by simp [scalarsOfItems]
  | first :: others, i, place, leaf => by
    rw [scalarsOfItems, List.mem_append, mem_map_below, mem_scalarsOfItems_iff]
    constructor
    · rintro (⟨rest, rfl, hleaf⟩ | ⟨j, item, rest, hitem, rfl, hleaf⟩)
      · exact ⟨0, first, rest, rfl, rfl, mem_scalars_iff.1 hleaf⟩
      · exact ⟨j + 1, item, rest, hitem, by rw [Nat.add_assoc, Nat.add_comm 1 j], hleaf⟩
    · rintro ⟨j, item, rest, hitem, rfl, hleaf⟩
      cases j with
      | zero =>
        cases hitem
        exact .inl ⟨rest, rfl, mem_scalars_iff.2 hleaf⟩
      | succ j => exact .inr ⟨j, item, rest, hitem, by rw [Nat.add_assoc, Nat.add_comm 1 j], hleaf⟩

theorem mem_scalarsOfMembers_iff :
    ∀ {members : List (String × Json)} {place : List Step} {leaf : Json},
    (place, leaf) ∈ scalarsOfMembers members ↔ ∃ name value rest, (name, value) ∈ members ∧
      place = .member name :: rest ∧ ScalarAt value rest leaf
  | [], _, _ => by simp [scalarsOfMembers]
  | (name, value) :: others, place, leaf => by
    rw [scalarsOfMembers, List.mem_append, mem_map_below, mem_scalarsOfMembers_iff]
    constructor
    · rintro (⟨rest, rfl, hleaf⟩ | ⟨other, value, rest, hmember, rfl, hleaf⟩)
      · exact ⟨name, value, rest, .head _, rfl, mem_scalars_iff.1 hleaf⟩
      · exact ⟨other, value, rest, .tail _ hmember, rfl, hleaf⟩
    · rintro ⟨other, found, rest, hmember, rfl, hleaf⟩
      cases hmember with
      | head => exact .inl ⟨rest, rfl, mem_scalars_iff.2 hleaf⟩
      | tail _ hmember => exact .inr ⟨other, found, rest, hmember, rfl, hleaf⟩

end

/-! ## Their order -/

mutual

/-- The members of objects are in order in all values that are put in order. -/
theorem inOrder_canonical : ∀ value : Json, InOrder value.canonical
  | .null => .null
  | .bool _ | .number _ | .string _ => .scalar rfl
  | .array items => .array (inOrder_canonicalItems items)
  | .object members => .object (Dict.ordered_ofList _) fun member hmember =>
      inOrder_canonicalMembers members member (Dict.mem_of_mem_ofList hmember)

theorem inOrder_canonicalItems :
    ∀ items : List Json, ∀ item ∈ Json.canonicalItems items, InOrder item
  | [] => List.forall_mem_nil _
  | first :: rest => List.forall_mem_cons.2 ⟨inOrder_canonical first, inOrder_canonicalItems rest⟩

theorem inOrder_canonicalMembers : ∀ members : List (String × Json),
    ∀ member ∈ Json.canonicalMembers members, InOrder member.2
  | [] => List.forall_mem_nil _
  | (_, value) :: rest =>
    List.forall_mem_cons.2 ⟨inOrder_canonical value, inOrder_canonicalMembers rest⟩

end

/-- So they are in all values that are read. -/
theorem inOrder_of_read {text : String} {value : Json} (h : Json.read text = some value) :
    InOrder value := by
  obtain ⟨written, -, rfl⟩ := Option.map_eq_some_iff.1 h
  exact inOrder_canonical written

theorem pairwise_map_below {step : Step} {entries : List (List Step × Json)}
    (h : (entries.map Prod.fst).Pairwise (List.Lex Step.Before)) :
    ((entries.map (below step)).map Prod.fst).Pairwise (List.Lex Step.Before) := by
  rw [List.map_map]
  rw [List.pairwise_map] at h ⊢
  exact h.imp fun hlex => .cons hlex

mutual

theorem pairwise_scalars : ∀ {value : Json}, InOrder value →
    ((scalars value).map Prod.fst).Pairwise (List.Lex Step.Before)
  | .null, _ => .nil
  | .bool _, _ | .number _, _ | .string _, _ => List.pairwise_singleton _ _
  | .array items, h => by
    cases h with
    | scalar h => cases h
    | array h => exact pairwise_scalarsOfItems h
  | .object members, h => by
    cases h with
    | scalar h => cases h
    | object hnames h => exact pairwise_scalarsOfMembers hnames h

theorem pairwise_scalarsOfItems : ∀ {items : List Json} {i : Nat}, (∀ item ∈ items, InOrder item) →
    ((scalarsOfItems i items).map Prod.fst).Pairwise (List.Lex Step.Before)
  | [], _, _ => .nil
  | item :: rest, i, h => by
    obtain ⟨hitem, hrest⟩ := List.forall_mem_cons.1 h
    rw [scalarsOfItems, List.map_append, List.pairwise_append]
    refine ⟨pairwise_map_below (pairwise_scalars hitem), pairwise_scalarsOfItems hrest, ?_⟩
    intro place hplace other hother
    obtain ⟨⟨_, leaf⟩, hentry, rfl⟩ := List.mem_map.1 hplace
    obtain ⟨⟨_, scalar⟩, hscalar, rfl⟩ := List.mem_map.1 hother
    obtain ⟨rest, rfl, -⟩ := mem_map_below.1 hentry
    obtain ⟨j, _, after, -, rfl, -⟩ := mem_scalarsOfItems_iff.1 hscalar
    -- the other items are counted on from here, so the first steps decide
    exact .rel (.item (by omega))

theorem pairwise_scalarsOfMembers : ∀ {members : List (String × Json)}, Dict.Ordered members →
    (∀ member ∈ members, InOrder member.2) →
    ((scalarsOfMembers members).map Prod.fst).Pairwise (List.Lex Step.Before)
  | [], _, _ => .nil
  | (name, value) :: rest, hnames, h => by
    obtain ⟨hvalue, hrest⟩ := List.forall_mem_cons.1 h
    obtain ⟨hname, hnames⟩ := List.pairwise_cons.1 hnames
    rw [scalarsOfMembers, List.map_append, List.pairwise_append]
    refine ⟨pairwise_map_below (pairwise_scalars hvalue),
      pairwise_scalarsOfMembers hnames hrest, ?_⟩
    intro place hplace other hother
    obtain ⟨⟨_, leaf⟩, hentry, rfl⟩ := List.mem_map.1 hplace
    obtain ⟨⟨_, scalar⟩, hscalar, rfl⟩ := List.mem_map.1 hother
    obtain ⟨rest, rfl, -⟩ := mem_map_below.1 hentry
    obtain ⟨other, _, after, hmember, rfl, -⟩ := mem_scalarsOfMembers_iff.1 hscalar
    exact .rel (.member (hname other (List.mem_map_of_mem hmember)))

end

/-- **The scalars of a value** are found in the order of their places. -/
theorem depthFirst_scalars {value : Json} (h : InOrder value) :
    DepthFirst value (scalars value) where
  mem_iff _ _ := mem_scalars_iff
  increasing := pairwise_scalars h

/-! ## Queries -/

/-- **What is written for arguments is read back** as the pairs of their scalars. -/
theorem readForm_queryText (arguments : List (String × Json)) : readForm (queryText arguments) =
    arguments.flatMap fun (key, value) => flattened key value := by
  rw [queryText, readForm_formText]
  simp only [leaves_eq]

theorem isShown_formPair (pair : String × String) : ∀ c ∈ (formPair pair).toList, IsShown c := by
  rw [toList_formPair]
  intro c hc
  rcases List.mem_append.1 hc with hc | hc
  · exact (mem_formEncode hc).1
  · rcases List.mem_cons.1 hc with rfl | hc
    · decide
    · exact (mem_formEncode hc).1

theorem isShown_queryText (arguments : List (String × Json)) :
    ∀ c ∈ (queryText arguments).toList, IsShown c := by
  rw [queryText, toList_formText]
  exact forall_mem_intercalate (List.forall_mem_singleton.2 (by decide))
    (List.forall_mem_map.2 fun pair _ => isShown_formPair pair)

/-- A query of characters that are shown is not changed. -/
theorem query_addressOf {text : String} (h : ∀ c ∈ text.toList, IsShown c) (base : Url)
    (segments : List String) : (addressOf base segments text).query =
      if text = "" then none else some text.toList := by
  have hkept : text.toList.filter (!Url.isSkipped ·) = text.toList :=
    List.filter_eq_self.2 fun c hc => by rw [(h c hc).2.2]; rfl
  have hencoded : Url.encode Url.hiddenInQuery text.toList = text.toList := by
    have hchar : ∀ c ∈ text.toList, Url.encodeChar Url.hiddenInQuery c = [c] := by
      intro c hc
      obtain ⟨hascii, hhidden, -⟩ := h c hc
      rw [Url.encodeChar, hhidden, decide_eq_false (Nat.not_lt.2 hascii)]
      rfl
    rw [Url.encode, List.flatMap_congr hchar, List.flatMap_singleton']
  rw [addressOf, Url.withQuery]
  by_cases hempty : text = ""
  · rw [if_pos hempty, hempty]
    rfl
  · have hnot : text.isEmpty = false := by simpa using hempty
    rw [if_neg hempty, hnot]
    simp only [Bool.false_eq_true, if_false, Option.map_some, hkept, hencoded]

/-- A form in one line is that of the members of an object. -/
theorem bodyOf_eq_urlEncoded {g : TypeGraph} {op : Operation} {a : Arguments} {form : Option Form}
    {body : Option Json} {text : String} (h : bodyOf g op a form body = .ok (.urlEncoded text)) :
    ∃ members, body = some (.object members) ∧ text = queryText members := by
  have hwrite {value : Json} (h : writeBody op value = .ok (.urlEncoded text)) :
      ∃ members, value = .object members ∧ text = queryText members := by
    rw [writeBody] at h
    split at h
    · cases h
    · split at h
      · cases h
      · cases h
      · cases h
        exact ⟨_, rfl, rfl⟩
      · cases h
      · cases h
  rw [bodyOf.eq_def] at h
  split at h
  · cases h
  · split at h
    · cases h
    · cases h
  · cases h
  · split at h
    · split at h
      · obtain ⟨members, rfl, htext⟩ := hwrite h
        exact ⟨members, rfl, htext⟩
      · cases h
    · cases h

/-- **Queries and forms are read back.**  Whatever texts arguments have in them, there is one pair
in a query for each scalar in an argument, in the order of a walk that goes down first, so no key
and no value adds, splits or joins pairs.  A body that is a form in one line is written so from the
members of an object.  The queries of all requests that leave a client are those of the arguments
that have been bound, without any change, and there is no query if their text is empty. -/
theorem queries_read_back :
    (∀ arguments : List (String × Json), readForm (queryText arguments) =
      arguments.flatMap fun (key, value) => flattened key value) ∧
    (∀ value : Json, InOrder value → DepthFirst value (scalars value)) ∧
    (∀ (op : Operation) (content : BodyContent) (members : Dict Json), op.content = some content →
      content.kind = .formUrlEncoded →
      writeBody op (.object members) = .ok (.urlEncoded (queryText members))) ∧
    ∀ {σ : Type} (api : Definition) (c : Config) (t : Transport σ) (id : String) (input : CallInput)
      (s : σ), c.queryWriter = queryText → ∀ request ∈ sentBy api c t id input s,
        ∃ op bound a, api.operation? id = some op ∧
          bind op api.types input c.fullRequest = .ok bound ∧
          request.url.query =
            (if queryText bound.query = "" then none else some (queryText bound.query).toList) ∧
          Arguments.read c.fullRequest input.arguments = .ok a ∧
          ∀ text, request.body = .urlEncoded text →
            ∃ members, bodyArgument op api.types a = some (.object members) ∧
              text = queryText members := by
  refine ⟨readForm_queryText, fun _ => depthFirst_scalars, ?_, ?_⟩
  · intro op content members hcontent hkind
    rw [writeBody, hcontent]
    simp only [hkind]
  · intro σ api c t id input s hwriter request hrequest
    obtain ⟨op, hprepare⟩ := mem_sentBy_iff.1 hrequest
    obtain ⟨hop, bound, headers, hbind, -, rfl⟩ := exists_bound_of_prepare hprepare
    obtain ⟨a, hread, hbound⟩ := (bind_eq_ok_iff bound).1 hbind
    obtain ⟨-, placed, -, hbody, -⟩ := (bindRead_eq_ok_iff bound).1 hbound
    refine ⟨op, bound, a, hop, hbind, ?_, hread, ?_⟩
    · rw [hwriter]
      exact query_addressOf (isShown_queryText bound.query) c.base bound.segments
    · rintro text htext
      rw [Config.request] at htext
      exact bodyOf_eq_urlEncoded (hbody.trans (congrArg Except.ok htext))

/-- A search with a filter in its query and a form in its body. -/
def findQuotes : Operation where
  id := "findQuotes"
  declaredId := none
  method := .post
  path := "/quotes"
  summary := none
  parameters := [⟨"filter", .query, false, 0, none⟩, ⟨"body", .body, false, 0, none⟩]
  content := some ⟨.formUrlEncoded, urlEncodedForm⟩
  responses := []

/-- An API of one search. -/
def searchApi : Definition :=
  ⟨.openApi, "Quotes", "1", [], [findQuotes], ⟨#[⟨none, .unknown, none⟩], []⟩, none⟩

/-- A filter whose texts have the signs of forms in them. -/
def quotesFilter : Json := .object [("tags", .array [.string "a&b", .null, .ofNat 1])]

/-- A search for quotes. -/
def searchInput : CallInput where
  arguments := .object [("body", .object [("q", .string "x=y")]), ("filter", quotesFilter)]

theorem inOrder_quotesFilter : InOrder quotesFilter := by
  refine .object (List.pairwise_singleton _ _) (List.forall_mem_singleton.2 (.array ?_))
  intro item hitem
  simp only [List.mem_cons, List.not_mem_nil, or_false] at hitem
  rcases hitem with rfl | rfl | rfl
  · exact .scalar rfl
  · exact .null
  · exact .scalar rfl

/-- Both tags arrive. -/
theorem queries_read_back_findQuotes :
    (InOrder quotesFilter ∧ (∃ place, (place, .ofNat 1) ∈ scalars quotesFilter)) ∧
    readForm (queryText [("filter", quotesFilter)]) =
      [("filter[tags]", "a&b"), ("filter[tags]", "1")] ∧
    ∃ request ∈ sentBy searchApi quotesConfig lostTransport "findQuotes" searchInput 0,
      request.url.query = some "filter%5Btags%5D=a%26b&filter%5Btags%5D=1".toList ∧
      request.body = .urlEncoded "q=x%3Dy" := by
  obtain ⟨hread, hscalars, hform, hsent⟩ := queries_read_back
  have hleaf : ScalarAt quotesFilter [.member "tags", .item 2] (.ofNat 1) :=
    .member (.head _) (.item rfl (.here rfl))
  refine ⟨⟨inOrder_quotesFilter, _, ((hscalars _ inOrder_quotesFilter).mem_iff _ _).2 hleaf⟩,
    ?_, ?_⟩
  · rw [hread]
    decide
  · obtain ⟨request, hprepare⟩ : ∃ request, prepare searchApi quotesConfig lostTransport.defaults
        "findQuotes" searchInput = .ok (findQuotes, request) := ⟨_, rfl⟩
    have hrequest :
        request ∈ sentBy searchApi quotesConfig lostTransport "findQuotes" searchInput 0 :=
      mem_sentBy_iff.2 ⟨findQuotes, hprepare⟩
    obtain ⟨op, bound, a, hop, hbind, hquery, haread, hbody⟩ :=
      hsent searchApi quotesConfig lostTransport "findQuotes" searchInput 0 rfl request hrequest
    cases hop
    cases hbind
    cases hprepare
    cases haread
    obtain ⟨members, hmembers, htext⟩ := hbody _ rfl
    cases hmembers
    refine ⟨_, hrequest, ?_, congrArg Body.urlEncoded (htext.trans (by decide))⟩
    rw [hquery]
    decide

end TypedClient.Client
