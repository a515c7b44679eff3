import TypedClient.Proofs.Declaration.Descent
import TypedClient.Proofs.Declaration.Meaning

/-!
# Unions that are widened

In the style that widens unions a union of several types is written as what its members have in
common.  The fields that object types share are written with the types that the first member gives
them.  So a value of another member is of the written type just if its parts under the shared fields
are of the types of the first member (`accepts_commonShape_iff`); all other shapes that members can
have in common admit the values of all members, null excepted.

* `NullFree` says that there is no null in a value;
* `SharedParts` says that the parts of a value under shared fields have certain types, and
  `SharedAgree` that they have those of the first member in all values of the members;
* `MembersAgree` says this of all unions of a graph;
* `admitting_expr` says that expressions admit the values of nodes if members agree;
* `Widenable` is what a graph needs for its declarations to be read in this style as they were
  meant, and `exists_declaredAs` says that they are;
* `parseDeclarations_widened` compares the values of a union with those of the type that is read.
-/

set_option autoImplicit false

namespace TypedClient.Declaration

open TypedClient.Text TypedClient.Types

/-- The style that writes unions as what their members have in common. -/
def widening : Style := ⟨true, true⟩

/-- There is no null in the value. -/
inductive NullFree : Json → Prop
  /-- A truth value. -/
  | bool (b : Bool) : NullFree (.bool b)
  /-- A number. -/
  | number (n : Json.Number) : NullFree (.number n)
  /-- A text. -/
  | string (s : String) : NullFree (.string s)
  /-- A list of such values. -/
  | array {items : List Json} (h : ∀ v ∈ items, NullFree v) : NullFree (.array items)
  /-- An object with such members. -/
  | object {values : Dict Json} (h : ∀ entry ∈ values, NullFree entry.2) : NullFree (.object values)

theorem NullFree.item {items : List Json} (h : NullFree (.array items)) :
    ∀ v ∈ items, NullFree v := by
  cases h with
  | array h => exact h

theorem NullFree.entry {values : Dict Json} (h : NullFree (.object values)) :
    ∀ entry ∈ values, NullFree entry.2 := by
  cases h with
  | object h => exact h

theorem NullFree.part {values : Dict Json} (h : NullFree (.object values)) {name : String}
    {part : Json} (hpart : Dict.get? values name = some part) : NullFree part :=
  h.entry _ (Dict.mem_of_get? hpart)

variable {g : TypeGraph} {M : String → Json → Prop} {f : TypeId → TypeExpr} {members : List TypeId}
  {id : TypeId} {v : Json}

/-! ## What members have in common -/

/-- A value of an alias is one of what the alias stands for. -/
theorem conforms_resolveWithin (h : Conforms g id v) (steps : Nat) :
    Conforms g (g.resolveWithin id steps) v := by
  induction steps generalizing id with
  | zero => exact h
  | succ steps ih =>
    rw [TypeGraph.resolveWithin]
    split
    · rename_i member hkind
      have hadmits := h.admits
      rw [hkind] at hadmits
      obtain ⟨other, hother, hv⟩ := hadmits
      rw [List.mem_singleton.1 hother] at hv
      exact ih hv
    · exact h

/-- A value without null is of one of the shapes of the members. -/
theorem exists_memberKind (hv : NullFree v) (h : ∃ member ∈ members, Conforms g member v) :
    ∃ kind ∈ memberKinds g members, Admits (Conforms g) kind v := by
  obtain ⟨member, hmember, hconforms⟩ := h
  have hadmits := (conforms_resolveWithin hconforms g.size).admits
  refine ⟨_, List.mem_filter.2 ⟨List.mem_map_of_mem hmember, ?_⟩, hadmits⟩
  change Admits _ (g.kind (g.resolve member)) v at hadmits
  split
  · rename_i hnull
    rw [hnull] at hadmits
    cases hv <;> cases hadmits
  · rfl

/-- What a scalar agrees with is of the type of the scalar. -/
theorem admits_of_scalarOf {value : Json} {base : Primitive} (h : scalarOf value = some base)
    (hagrees : value.agrees v = true) : base.admits v = true := by
  cases value <;> cases h <;> cases v <;> first | rfl | cases hagrees

theorem admits_of_scalarBase {R : TypeId → Json → Prop} {kind : TypeKind} {base : Primitive}
    (hv : Admits R kind v) (h : scalarBase kind = some base) : base.admits v = true := by
  rw [scalarBase.eq_def] at h
  split at h
  · cases h
    exact hv
  · rename_i first rest
    dsimp only at h
    split at h
    · rename_i hall
      obtain ⟨value, hvalue, hagrees⟩ := hv
      refine admits_of_scalarOf ?_ hagrees
      rcases List.mem_cons.1 hvalue with rfl | hvalue
      · exact h
      · rw [eq_of_beq (List.all_eq_true.1 hall value hvalue), h]
    · cases h
  · cases h

/-- The shape has a field of the name, which is required if the given one is. -/
def HasCounterpart (field : Field) (fields : List Field) : Prop :=
  ∃ other ∈ fields, other.name = field.name ∧ (field.required = true → other.required = true)

/-- All shapes that share fields are object types that have these fields. -/
theorem hasCounterpart_of_sharedFields? {kinds : List TypeKind} {shared : List Field}
    (h : sharedFields? kinds = some shared) :
    ∀ kind ∈ kinds,
      ∃ fields, kind = .object fields ∧ ∀ field ∈ shared, HasCounterpart field fields := by
  rw [sharedFields?.eq_def] at h
  split at h
  · rename_i fields rest
    obtain ⟨others, hothers, rfl⟩ := Option.map_eq_some_iff.1 h
    intro kind hkind
    rcases List.mem_cons.1 hkind with rfl | hkind
    · refine ⟨fields, rfl, fun field hfield => ?_⟩
      obtain ⟨origin, horigin, hcommon⟩ := List.mem_filterMap.1 hfield
      obtain ⟨matching, -, rfl⟩ := Option.map_eq_some_iff.1 hcommon
      exact ⟨origin, horigin, rfl, fun hrequired => (Bool.and_eq_true_iff.1 hrequired).1⟩
    · obtain ⟨other, hother, hsome⟩ := exists_of_mem_left (forall₂_of_mapM hothers) hkind
      split at hsome
      · cases hsome
        refine ⟨other, rfl, fun field hfield => ?_⟩
        obtain ⟨origin, horigin, hcommon⟩ := List.mem_filterMap.1 hfield
        obtain ⟨matching, hmatching, rfl⟩ := Option.map_eq_some_iff.1 hcommon
        obtain ⟨found, hfound, hfind⟩ := exists_of_mem_left (forall₂_of_mapM hmatching) hother
        refine ⟨found, List.mem_of_find?_eq_some hfind, by simpa using List.find?_some hfind,
          fun hrequired => ?_⟩
        exact List.all_eq_true.1 (Bool.and_eq_true_iff.1 hrequired).2 found hfound
      · cases hsome
  · cases h

theorem commonShape_of_shared {style : Style} {shared : List Field}
    (h : sharedFields? (memberKinds g members) = some shared) :
    commonShape g style f members = .object (membersOf style f shared) := by
  rw [commonShape.eq_def]
  split
  · rename_i hkinds
    rw [hkinds] at h
    cases h
  · rename_i hkinds
    rw [hkinds] at h
    rw [h]
  · rename_i first rest hno hkinds
    rw [hkinds, sharedFields?.eq_def] at h
    split at h
    · rename_i hcons
      cases hcons
      exact (hno _ rfl).elim
    · cases h

/-- What the value has under the fields that the members share is of the types of these fields,
which are those that the first member gives them. -/
def SharedParts (g : TypeGraph) (T : TypeId → Json → Prop) (members : List TypeId)
    (v : Json) : Prop :=
  ∀ values shared, v = .object values → sharedFields? (memberKinds g members) = some shared →
    ∀ field ∈ shared, ∀ part, Dict.get? values field.name = some part → T field.type part

/-- Shapes that do not share fields have in common what admits the values of each. -/
theorem accepts_commonShape_of_none {kind : TypeKind} (hkind : kind ∈ memberKinds g members)
    (hv : Admits (Conforms g) kind v) (hnone : sharedFields? (memberKinds g members) = none) :
    (commonShape g widening f members).Accepts M v := by
  rw [commonShape.eq_def]
  split
  · rename_i hkinds
    rw [hkinds] at hkind
    cases hkind
  · rename_i hkinds
    rw [hkinds] at hnone
    rw [hnone]
    exact .unknown
  · rename_i first rest _ hkinds
    rw [hkinds] at hkind
    dsimp only
    split
    · rename_i item _
      rw [Bool.true_and]
      split
      · rename_i hall
        -- A value of a list type is a list, whatever its items are.
        have hlist : ∃ item, kind = .array item := by
          rcases List.mem_cons.1 hkind with rfl | hkind
          · exact ⟨item, rfl⟩
          · have hkind := List.all_eq_true.1 hall kind hkind
            split at hkind
            · exact ⟨_, rfl⟩
            · cases hkind
        obtain ⟨item, rfl⟩ := hlist
        obtain ⟨items, rfl, -⟩ := admits_array.1 hv
        exact .array fun _ _ => .unknown
      · exact .unknown
    · rw [Bool.false_and, if_neg Bool.false_ne_true]
      split
      · rename_i base hbase
        split
        · rename_i hall
          refine .primitive (admits_of_scalarBase hv ?_)
          rcases List.mem_cons.1 hkind with rfl | hkind
          · exact hbase
          · exact eq_of_beq (List.all_eq_true.1 hall kind hkind)
        · exact .unknown
      · exact .unknown

/-- **What the members have in common admits a value of a member** just if the parts of the value
under fields that the members share are admitted by the types that are written for these. -/
theorem accepts_commonShape_iff (hv : NullFree v) (h : ∃ member ∈ members, Conforms g member v) :
    (commonShape g widening f members).Accepts M v ↔
      SharedParts g (fun id part => (f id).Accepts M part) members v := by
  obtain ⟨kind, hkind, hadmits⟩ := exists_memberKind hv h
  cases hshared : sharedFields? (memberKinds g members) with
  | none =>
    refine iff_of_true (accepts_commonShape_of_none hkind hadmits hshared) fun _ _ _ hsome => ?_
    rw [hshared] at hsome
    cases hsome
  | some shared =>
    obtain ⟨fields, rfl, hfields⟩ := hasCounterpart_of_sharedFields? hshared kind hkind
    obtain ⟨values, rfl, hvalues⟩ := admits_object.1 hadmits
    rw [commonShape_of_shared hshared, accepts_object]
    constructor
    · rintro ⟨_, ⟨⟩, hmembers⟩ _ _ ⟨⟩ hsome field hfield part hpart
      obtain rfl := Option.some.inj (hshared.symm.trans hsome)
      exact (hmembers _ (List.mem_map_of_mem hfield)).present part hpart
    · intro hparts
      refine ⟨values, rfl, List.forall_mem_map.2 fun field hfield => ⟨?_, fun hoptional => ?_⟩⟩
      · exact fun part hpart => hparts values shared rfl hshared field hfield part hpart
      · obtain ⟨other, hother, hname, hrequired⟩ := hfields field hfield
        have hfield : field.required = true := by simpa [widening] using hoptional
        rw [← hname]
        exact (hvalues other hother).required (hrequired hfield)

/-- In all values of the members, what stands under a field that they share is of the type that the
first member gives it. -/
def SharedAgree (g : TypeGraph) (members : List TypeId) : Prop :=
  ∀ v, NullFree v → (∃ member ∈ members, Conforms g member v) → SharedParts g (Conforms g) members v

/-- The members of every union of several types agree about the fields that they share. -/
def MembersAgree (g : TypeGraph) : Prop :=
  ∀ id members, g.kind id = .union members → 1 < members.length → SharedAgree g members

/-! ## Expressions in the style that widens -/

/-- Values of the node that are without null are admitted by the expression. -/
def Admitting (g : TypeGraph) (M : String → Json → Prop) (id : TypeId) (e : TypeExpr) : Prop :=
  ∀ v, NullFree v → Conforms g id v → e.Accepts M v

theorem accepts_literalExpr {value : Json} (h : value.agrees v = true) :
    (literalExpr value).Accepts M v := by
  cases value with
  | array | object => exact .unknown
  | null =>
    cases v with
    | null => exact .primitive rfl
    | _ => cases h
  | _ => exact .literal h

theorem admitting_kindExpr (hshared : MembersAgree g) (hf : ∀ part, Admitting g M part (f part))
    (id : TypeId) : Admitting g M id (kindExpr g widening f (g.kind id)) := by
  intro v hv hconforms
  have hadmits := hconforms.admits
  obtain ⟨kind, hkind⟩ : ∃ kind, g.kind id = kind := ⟨_, rfl⟩
  rw [hkind] at hadmits ⊢
  cases kind with
  | unknown => exact .unknown
  | primitive p => exact .primitive hadmits
  | enumeration values =>
    obtain ⟨value, hvalue, hagrees⟩ := hadmits
    exact accepts_oneOrUnion.2 ⟨_, List.mem_map_of_mem hvalue, accepts_literalExpr hagrees⟩
  | array item =>
    obtain ⟨items, rfl, hitems⟩ := admits_array.1 hadmits
    refine .array fun x hx => ?_
    have hx := hf item x (hv.item x hx) (hitems x hx)
    split
    · exact .group hx
    · exact hx
  | map entry =>
    obtain ⟨values, rfl, hvalues⟩ := admits_map.1 hadmits
    exact .record fun x hx => hf entry x.2 (hv.entry x hx) (hvalues x hx)
  | object fields =>
    obtain ⟨values, rfl, hvalues⟩ := admits_object.1 hadmits
    refine accepts_object.2 ⟨values, rfl, List.forall_mem_map.2 fun field hfield => ?_⟩
    have hadmitted := hvalues field hfield
    exact ⟨fun part hpart => hf field.type part (hv.part hpart) (hadmitted.present part hpart),
      fun hoptional => hadmitted.required (by simpa [widening] using hoptional)⟩
  | union members =>
    rw [kindExpr, if_pos (show widening.widened = true from rfl)]
    split
    · rename_i hseveral
      have hagree := hshared id members hkind hseveral v hv hadmits
      refine .noted ((accepts_commonShape_iff hv hadmits).2 ?_)
      intro values shared hvalues hsome field hfield part hpart
      exact hf field.type part ((hvalues ▸ hv).part hpart)
        (hagree values shared hvalues hsome field hfield part hpart)
    · obtain ⟨member, hmember, hmv⟩ := hadmits
      exact accepts_oneOrUnion.2 ⟨_, List.mem_map_of_mem hmember, hf member v hv hmv⟩

/-- What a name admits is what conforms to the node of the graph, null excepted. -/
def NamedIn (g : TypeGraph) (name : String) (v : Json) : Prop :=
  ∃ id, g.nameOf id = some name ∧ NullFree v ∧ Conforms g id v

/-- **The expression for a node admits its values** if the members of unions agree about the fields
that they share. -/
theorem admitting_expr (hshared : MembersAgree g) (id : TypeId) :
    Admitting g (NamedIn g) id (expr g widening id) :=
  expr_all (P := Admitting g (NamedIn g)) (fun _ _ _ _ => .unknown)
    (fun id _ hname _ hv hconforms => .name ⟨id, hname, hv, hconforms⟩)
    (fun id _ _ hf => admitting_kindExpr hshared hf id) id

/-! ## Text that is read as it was meant -/

/-- The shape is written with bars that no parentheses are around: it is a choice between several
values, or an alias of one. -/
inductive Spreads (g : TypeGraph) : TypeKind → Prop
  /-- Several values. -/
  | enumeration {values : List Json} (h : 1 < values.length) : Spreads g (.enumeration values)
  /-- One type without a name. -/
  | alias {member : TypeId} (hname : g.nameOf member = none) (h : Spreads g (g.kind member)) :
      Spreads g (.union [member])

/-- A graph whose types are read, in the style that widens unions, as they were meant. -/
structure Widenable (g : TypeGraph) : Prop where
  /-- The graph is in order. -/
  sound : g.Sound
  /-- Every type has an expression. -/
  expression : ∀ id < g.size, (widening.expr? g id).isSome
  /-- Names name types. -/
  names : ∀ id name, g.nameOf id = some name → IsTypeName name
  /-- No type is a choice among nothing. -/
  offers : ∀ id, (g.kind id).Offers
  /-- Numbers are read as numbers that agree with them. -/
  numbers : ∀ id values n, g.kind id = .enumeration values → .number n ∈ values →
    ∃ m, rereadNumber? n = some m ∧ n.agrees m = true
  /-- There are parentheses around what the items of a list are chosen from. -/
  lists : ∀ id item, g.kind id = .array item → g.nameOf item = none → Spreads g (g.kind item) →
    isChoice g item 1 1 = true

/-- The expression for the node is read as one that admits the same, which may stand between bars
unless it has bars itself. -/
def ReadsRight (g : TypeGraph) (id : TypeId) (e : TypeExpr) : Prop :=
  (∃ f, e.ReadAs (IsNameIn g) true f) ∧
    ((g.nameOf id = none → ¬Spreads g (g.kind id)) → ∃ f, e.ReadAs (IsNameIn g) false f)

theorem exists_readAs_membersOf {style : Style} (hf : ∀ part, ReadsRight g part (f part))
    (fields : List Field) :
    ∃ others, List.Forall₂ (Member.ReadAs (IsNameIn g)) (membersOf style f fields) others :=
  exists_readAs_members (List.forall_mem_map.2 fun field _ => (hf field.type).1)

theorem exists_readAs_commonShape {style : Style} (hf : ∀ part, ReadsRight g part (f part))
    (members : List TypeId) (whole : Bool) :
    ∃ e, (commonShape g style f members).ReadAs (IsNameIn g) whole e := by
  rw [commonShape.eq_def]
  split
  · exact ⟨_, readAs_primitive .null⟩
  · split
    · obtain ⟨others, hothers⟩ := exists_readAs_membersOf hf _
      exact ⟨_, readAs_object hothers⟩
    · exact ⟨_, readAs_unknown⟩
  · dsimp only
    split
    all_goals
      split
      · exact ⟨_, readAs_unknown.array⟩
      · split
        · split
          · exact ⟨_, readAs_primitive _⟩
          · exact ⟨_, readAs_unknown⟩
        · exact ⟨_, readAs_unknown⟩

/-- Values are read as a choice between them, with bars if there are several. -/
theorem exists_readAs_values {known : String → Prop} {values : List Json} {whole : Bool}
    (hne : values ≠ [])
    (hvalues : ∀ value ∈ values, ∀ whole, ∃ e, (literalExpr value).ReadAs known whole e)
    (hbars : whole = false → ¬1 < values.length) :
    ∃ e, (oneOrUnion (values.map literalExpr)).ReadAs known whole e := by
  match values, hne with
  | [value], _ => exact hvalues value List.mem_cons_self whole
  | first :: second :: rest, _ =>
    have hseveral : 1 < (first :: second :: rest).length := by simp
    cases whole with
    | false => exact absurd hseveral (hbars rfl)
    | true =>
      have hall : ∀ e ∈ (first :: second :: rest).map literalExpr,
          ∃ f, e.ReadAs known false f := by
        intro e he
        obtain ⟨value, hvalue, rfl⟩ := List.mem_map.1 he
        exact hvalues value hvalue false
      exact exists_readAs_union (by simp) hall

/-- **The expression for a shape is read as it was meant** if those are that it is made of. -/
theorem exists_readAs_kindExpr (hg : Widenable g) (hf : ∀ part, ReadsRight g part (f part))
    (id : TypeId) {whole : Bool} (hwhole : whole = false → ¬Spreads g (g.kind id)) :
    ∃ e, (kindExpr g widening f (g.kind id)).ReadAs (IsNameIn g) whole e := by
  have hoffers := hg.offers id
  obtain ⟨kind, hkind⟩ : ∃ kind, g.kind id = kind := ⟨_, rfl⟩
  rw [hkind] at hoffers hwhole ⊢
  cases kind with
  | unknown => exact ⟨_, readAs_unknown⟩
  | primitive p => exact ⟨_, readAs_primitive p⟩
  | object fields =>
    obtain ⟨others, hothers⟩ := exists_readAs_membersOf hf fields
    exact ⟨_, readAs_object hothers⟩
  | map value =>
    obtain ⟨e, he⟩ := (hf value).1
    exact ⟨_, he.record⟩
  | array item =>
    obtain ⟨e, he⟩ := exists_readAs_grouped (isChoice g item 1 1) (hf item).1 fun hgrouped =>
      (hf item).2 fun hname hspreads => by
        rw [hg.lists id item hkind hname hspreads] at hgrouped
        cases hgrouped
    exact ⟨_, he.array⟩
  | enumeration values =>
    refine exists_readAs_values hoffers (fun value hvalue whole => ?_) fun hbars hseveral =>
      hwhole hbars (.enumeration hseveral)
    exact exists_readAs_literalExpr fun n hn => hg.numbers id values n hkind (hn ▸ hvalue)
  | union members =>
    rw [kindExpr, if_pos (show widening.widened = true from rfl)]
    split
    · obtain ⟨e, he⟩ := exists_readAs_commonShape hf members whole
      refine ⟨e, he.noted ?_⟩
      rw [String.toList_append]
      refine .append (noClose_of_notMem (by decide)) ?_ (.inl (by decide))
      rw [String.toList_ofList]
      exact noClose_inComment _
    · rename_i hsingle
      obtain ⟨member, rfl⟩ : ∃ member, members = [member] :=
        List.length_eq_one_iff.1
          (Nat.le_antisymm (Nat.not_lt.1 hsingle) (List.length_pos_iff.2 hoffers))
      cases whole with
      | true => exact (hf member).1
      | false => exact (hf member).2 fun hname hspreads => hwhole rfl (.alias hname hspreads)

theorem readsRight_expr (hg : Widenable g) (id : TypeId) :
    ReadsRight g id (expr g widening id) := by
  refine expr_all (P := ReadsRight g) (fun _ => ?_) (fun id name hname => ?_)
    (fun id f hnone hf => ?_) id
  · exact ⟨⟨_, readAs_unknown⟩, fun _ => ⟨_, readAs_unknown⟩⟩
  · have hknown : IsNameIn g name :=
      ⟨id, hg.sound.lookup_of_nameOf (TypeGraph.lt_of_nameOf hname) hname⟩
    have htype := hg.names id name hname
    exact ⟨⟨_, readAs_name htype hknown⟩, fun _ => ⟨_, readAs_name htype hknown⟩⟩
  · exact ⟨exists_readAs_kindExpr hg hf id fun h => absurd h Bool.noConfusion, fun hspreads =>
      exists_readAs_kindExpr hg hf id fun _ => hspreads hnone⟩

/-- Every named type has a declaration that is read as it was meant. -/
theorem exists_meansAs (hg : Widenable g) {name : String} (hname : g.nameOf id = some name) :
    ∃ s t, statement? g widening id = some s ∧ s.MeansAs (IsNameIn g) t := by
  have htype := hg.names id name hname
  obtain ⟨e, he⟩ :
      ∃ e, (kindExpr g widening (expr g widening) (g.kind id)).ReadAs (IsNameIn g) true e :=
    exists_readAs_kindExpr hg (readsRight_expr hg) id fun h => absurd h Bool.noConfusion
  rw [statement?, hname, Option.map_some]
  cases hkind : g.kind id with
  | object fields =>
    obtain ⟨others, hothers⟩ := exists_readAs_membersOf (readsRight_expr hg) fields
    exact ⟨_, _, rfl, meansAs_interface htype hothers⟩
  | _ =>
    rw [hkind] at he
    exact ⟨_, _, rfl, meansAs_typeAlias htype he⟩

/-! ## The whole text -/

/-- The lines of the declaration of a named type, comments included, declare it. -/
theorem exists_declares (hg : Widenable g) {name : String} (hname : g.nameOf id = some name) :
    ∃ s, s.name = name ∧ s.type = kindExpr g widening (expr g widening) (g.kind id) ∧
      Declares (IsNameIn g) ((declaration? g widening id).getD []) s := by
  obtain ⟨s, t, hs, ht⟩ := exists_meansAs hg hname
  obtain ⟨hsname, hstype⟩ := type_of_statement? hs
  refine ⟨s, Option.some.inj (hsname.symm.trans hname), hstype, t, ?_, ht⟩
  obtain ⟨lines, hlines⟩ : ∃ lines, declaration? g widening id = some lines := by
    rw [declaration?, hs]
    exact ⟨_, rfl⟩
  rw [hlines, ← ht.1.tokens]
  exact lexes_declaration hs ht.1.legible hlines

/-- The text of the declarations of some nodes and of an alias. -/
def wideningText (g : TypeGraph) (ids : List TypeId) (name : String) (e : TypeExpr) : String :=
  Emit.textOf (ids.flatMap (fun id => (declaration? g widening id).getD []) ++
    (Statement.typeAlias name e).lines)

/-- The names of one graph are declared in the other as what is written for them in the style that
widens unions. -/
def DeclaresAll (g k : TypeGraph) : Prop :=
  ∀ id name, g.nameOf id = some name →
    DeclaredAs k name (kindExpr g widening (expr g widening) (g.kind id))

/-- **The declarations of a graph and an alias are read as they were meant**, in the style that
widens unions. -/
theorem exists_declaredAs (hg : Widenable g) {ids : List TypeId} (hnodup : ids.Nodup)
    (hids : ∀ id, id ∈ ids ↔ g.nameOf id ≠ none) {name : String} (hname : IsTypeName name)
    (hfresh : g.lookup name = none) {e : TypeExpr} (he : ∃ f, e.ReadAs (IsNameIn g) true f) :
    ∃ k, parseDeclarations (wideningText g ids name e) = .ok k ∧ k.Sound ∧
      DeclaresAll g k ∧ DeclaredAs k name e := by
  have hread : ∀ id ∈ ids, ∃ s, g.nameOf id = some s.name ∧
      s.type = kindExpr g widening (expr g widening) (g.kind id) ∧
        Declares (IsNameIn g) ((declaration? g widening id).getD []) s := by
    intro id hid
    obtain ⟨other, hother⟩ := Option.ne_none_iff_exists'.1 ((hids id).1 hid)
    obtain ⟨s, rfl, hs⟩ := exists_declares hg hother
    exact ⟨s, hother, hs⟩
  have : Nonempty Statement := ⟨.typeAlias "" .unknown⟩
  choose! s hnameOf htype hdeclares using hread
  obtain ⟨f, hf⟩ := he
  have hpieces : ∀ piece ∈ ids.map (fun id => ((declaration? g widening id).getD [], s id)) ++
      [((Statement.typeAlias name e).lines, .typeAlias name e)], Declares
      (IsNameIn g) piece.1 piece.2 :=
    List.forall_mem_append.2 ⟨List.forall_mem_map.2 hdeclares,
      List.forall_mem_singleton.2 (meansAs_typeAlias hname hf).declares⟩
  have hlookup : ∀ id ∈ ids, g.lookup (s id).name = some id := fun id hid =>
    hg.sound.lookup_of_nameOf (TypeGraph.lt_of_nameOf (hnameOf id hid)) (hnameOf id hid)
  -- Different nodes have different names, and the alias has a name of its own.
  have hnames : ((ids.map fun id => (s id).name) ++ [name]).Nodup := by
    refine List.nodup_append.2 ⟨hnodup.map_on fun a ha b hb hab => ?_, List.nodup_singleton _,
      fun other hother last hlast hsame => ?_⟩
    · have hb' := hlookup b hb
      rw [← hab, hlookup a ha] at hb'
      exact Option.some.inj hb'
    · obtain ⟨id, hid, rfl⟩ := List.mem_map.1 hother
      have hid' := hlookup id hid
      rw [hsame, List.mem_singleton.1 hlast, hfresh] at hid'
      cases hid'
  obtain ⟨k, hparse, hsound, hdeclared⟩ := exists_declaredAs_of_lines hpieces
    (by rwa [List.map_append, List.map_map, List.map_singleton])
  rw [List.flatMap_append, List.flatMap_map, List.flatMap_singleton] at hparse
  refine ⟨k, hparse, hsound, fun id other hother => ?_, ?_⟩
  · have hid := (hids id).2 (by rw [hother]; exact Option.some_ne_none _)
    rw [← htype id hid, Option.some.inj (hother.symm.trans (hnameOf id hid))]
    exact hdeclared _ (List.mem_append_left _ (List.mem_map_of_mem hid))
  · exact hdeclared _ (List.mem_append_right _ (List.mem_singleton_self _))

/-! ## Types that are written and types that are read -/

variable {k : TypeGraph} {node : TypeId}

theorem Widenable.expr_of_anonymous (hg : Widenable g) (hid : id < g.size)
    (hnone : g.nameOf id = none) :
    expr g widening id = kindExpr g widening (expr g widening) (g.kind id) := by
  have hparts : ∀ part ∈ partsOf g widening (g.kind id), (widening.expr? g part).isSome :=
    fun part hpart => hg.expression part (lt_of_mem_partsOf hg.sound hid hpart)
  rw [expr, expr?_of_anonymous hnone hparts, Option.getD_some]

theorem lt_of_kind_union (h : g.kind id = .union members) : id < g.size := by
  refine Nat.lt_of_not_le fun hle => ?_
  rw [TypeGraph.kind_of_size_le hle] at h
  cases h

/-- What is written for a union admits a value of a member just if what is written for shared fields
admits the parts of the value. -/
theorem accepts_union_iff (hg : Widenable g) (hall : DeclaresAll g k)
    (hkind : g.kind id = .union members) (hseveral : 1 < members.length) (hv : NullFree v)
    (h : ∃ member ∈ members, Conforms g member v) :
    (expr g widening id).Accepts (Declared k) v ↔
      SharedParts g (fun id part => (expr g widening id).Accepts (Declared k) part) members v := by
  have hshape : (kindExpr g widening (expr g widening) (g.kind id)).Accepts (Declared k) v ↔
      SharedParts g (fun id part => (expr g widening id).Accepts (Declared k) part) members v := by
    rw [hkind, kindExpr, if_pos (show widening.widened = true from rfl), if_pos hseveral,
      widenedExpr, accepts_noted]
    exact accepts_commonShape_iff hv h
  rw [← hshape]
  cases hname : g.nameOf id with
  | none => rw [hg.expr_of_anonymous (lt_of_kind_union hkind) hname]
  | some name =>
    have hdeclared := hall id name hname
    obtain ⟨node, hnode⟩ := hdeclared.exists_lookup
    rw [expr_of_named hname, accepts_name]
    constructor
    · rintro ⟨other, hother, hconforms⟩
      exact (hdeclared.conforms_iff hother).1 hconforms
    · intro haccepts
      exact ⟨node, hnode, (hdeclared.conforms_iff hnode).2 haccepts⟩

/-- Values without null conform to what is read if what is written admits them, as long as members
of unions agree about the fields that they share. -/
theorem conforms_of_accepts (hk : k.Sound) (hall : DeclaresAll g k) (hshared : MembersAgree g)
    {name : String} {e : TypeExpr} (hdeclared : DeclaredAs k name e)
    (hnode : k.lookup name = some node) (h : e.Accepts (NamedIn g) v) : Conforms k node v := by
  obtain ⟨s, id, target, hdefined, rfl, haccepts⟩ := hdeclared
  obtain rfl := Option.some.inj (hnode.symm.trans hdefined.lookup)
  have htarget : Conforms k target v := by
    refine conforms_of_declared hk ?_ hdefined.placed ((haccepts _ _).2 h)
    rintro name id v hid ⟨origin, horigin, hv, hconforms⟩
    obtain ⟨s, other, target, hdefined, rfl, haccepts⟩ := hall origin name horigin
    obtain rfl := Option.some.inj (hid.symm.trans hdefined.lookup)
    exact ⟨s, target, hdefined, (haccepts _ _).2
      (admitting_kindExpr hshared (admitting_expr hshared) origin v hv hconforms)⟩
  exact hdefined.conforms_iff.2 (hdefined.placed.conforms_iff.1 htarget)

/-- A union that is widened is read as a type that a value of a member conforms to just if what is
written for shared fields admits the parts of the value. -/
theorem exists_conforms_iff (hg : Widenable g) {ids : List TypeId} (hnodup : ids.Nodup)
    (hids : ∀ id, id ∈ ids ↔ g.nameOf id ≠ none) {name : String} (hname : IsTypeName name)
    (hfresh : g.lookup name = none) (hkind : g.kind id = .union members)
    (hseveral : 1 < members.length) :
    ∃ e k node, widening.expr? g id = some e ∧
      parseDeclarations (wideningText g ids name e) = .ok k ∧
      k.lookup name = some node ∧ k.Sound ∧ DeclaresAll g k ∧
      DeclaredAs k name (expr g widening id) ∧
      ∀ v, NullFree v → (∃ member ∈ members, Conforms g member v) → (Conforms k node v ↔
        SharedParts g (fun id part => (expr g widening id).Accepts (Declared k) part)
          members v) := by
  obtain ⟨k, hparse, hsound, hall, hdeclared⟩ :=
    exists_declaredAs hg hnodup hids hname hfresh (readsRight_expr hg id).1
  obtain ⟨node, hnode⟩ := hdeclared.exists_lookup
  refine ⟨_, k, node, expr?_of_isSome (hg.expression id (lt_of_kind_union hkind)), hparse,
    hnode, hsound, hall, hdeclared, fun v hv h => ?_⟩
  rw [hdeclared.conforms_iff hnode]
  exact accepts_union_iff hg hall hkind hseveral hv h

/-- **Widening only widens** where members agree about the fields that they share.  The declarations
of a graph are read together with an alias of a union of several types.  A value without null of a
member conforms to what is read for the alias just if its parts under shared fields are admitted by
what is written for these, which is what the first member gives them; and it conforms in any case if
all parts of values under fields that members of a union share are of the type that the first member
gives them. -/
theorem parseDeclarations_widened (hg : Widenable g) {ids : List TypeId} (hnodup : ids.Nodup)
    (hids : ∀ id, id ∈ ids ↔ g.nameOf id ≠ none) {name : String} (hname : IsTypeName name)
    (hfresh : g.lookup name = none) (hkind : g.kind id = .union members)
    (hseveral : 1 < members.length) :
    ∃ e k node, widening.expr? g id = some e ∧
      parseDeclarations (wideningText g ids name e) = .ok k ∧
      k.lookup name = some node ∧
      (∀ v, NullFree v → (∃ member ∈ members, Conforms g member v) → (Conforms k node v ↔
        SharedParts g (fun id part => (expr g widening id).Accepts (Declared k) part) members v)) ∧
      (MembersAgree g → ∀ v, NullFree v → (∃ member ∈ members, Conforms g member v) →
        Conforms k node v) := by
  obtain ⟨e, k, node, he, hparse, hnode, hsound, hall, hdeclared, hiff⟩ :=
    exists_conforms_iff hg hnodup hids hname hfresh hkind hseveral
  refine ⟨e, k, node, he, hparse, hnode, hiff, fun hshared v hv h => ?_⟩
  have hunion : Conforms g id v := Types.conforms_iff.2 (hkind ▸ h)
  exact conforms_of_accepts hsound hall hshared hdeclared hnode
    (admitting_expr hshared id v hv hunion)

/-- Movies, whose ids are numbers, and shows, whose ids are of the given type, and one or the
other. -/
def listings (showId : Fin 2) : TypeGraph :=
  (((((TypeGraph.empty.add (.primitive .number)).add (.primitive .string)).reserve
    "Movie").1.setKind 2 (.object [⟨"id", 0, true, none⟩])).reserve "Show" |>.1.setKind 3
      (.object [⟨"id", showId, true, none⟩])).add (.union [2, 3])

variable {showId : Fin 2}

theorem sound_listings : (listings showId).Sound := by
  have hgrown : (listings showId).Grown := by
    refine (((((TypeGraph.Grown.empty.add ?_).add ?_).reserve _).setKind ?_ ?_).reserve _).setKind
      ?_ ?_ |>.add ?_
    all_goals decide +revert
  exact hgrown.toSound

theorem nameOf_listings (id : Nat) :
    (listings showId).nameOf id =
      if id = 2 then some "Movie" else if id = 3 then some "Show" else none := by
  match id with
  | 0 | 1 | 2 | 3 | 4 => rfl
  | id + 5 =>
    rw [if_neg (by omega), if_neg (by omega)]
    exact TypeGraph.nameOf_of_size_le (Nat.le_add_left 5 id)

theorem kind_listings (id : Nat) : (∃ p, (listings showId).kind id = .primitive p) ∨
    (∃ fields, (listings showId).kind id = .object fields) ∨
      (listings showId).kind id = .union [2, 3] ∨ (listings showId).kind id = .unknown := by
  match id with
  | 0 | 1 => exact .inl ⟨_, rfl⟩
  | 2 | 3 => exact .inr (.inl ⟨_, rfl⟩)
  | 4 => exact .inr (.inr (.inl rfl))
  | id + 5 =>
    exact .inr (.inr (.inr (TypeGraph.kind_of_size_le (Nat.le_add_left 5 id))))

theorem expression_listings :
    ∀ id < (listings showId).size, (widening.expr? (listings showId) id).isSome := by
  have hnamed {id : TypeId} {name : String} (h : (listings showId).nameOf id = some name) :
      (widening.expr? (listings showId) id).isSome := by
    rw [expr?_of_named h]
    rfl
  have hnumber : (widening.expr? (listings showId) 0).isSome := by
    rw [expr?_of_anonymous rfl (List.forall_mem_nil _)]
    rfl
  intro id hid
  match id, hid with
  | 0, _ => exact hnumber
  | 1, _ =>
    rw [expr?_of_anonymous rfl (List.forall_mem_nil _)]
    rfl
  | 2, _ | 3, _ => exact hnamed rfl
  | 4, _ =>
    rw [expr?_of_anonymous rfl]
    · rfl
    · exact List.forall_mem_cons.2 ⟨hnamed rfl, List.forall_mem_cons.2 ⟨hnamed rfl,
        List.forall_mem_singleton.2 hnumber⟩⟩

theorem widenable_listings : Widenable (listings showId) where
  sound := sound_listings
  expression := expression_listings
  names := by
    intro id name hname
    rw [nameOf_listings] at hname
    split at hname
    · cases hname
      exact IsDeclaredName.isTypeName ⟨'M', _, rfl, rfl, List.all_eq_true.1 (by decide)⟩
    · split at hname
      · cases hname
        exact IsDeclaredName.isTypeName ⟨'S', _, rfl, rfl, List.all_eq_true.1 (by decide)⟩
      · cases hname
  offers := by
    intro id
    rcases kind_listings id with ⟨p, h⟩ | ⟨fields, h⟩ | h | h <;> rw [h]
    · trivial
    · trivial
    · exact List.cons_ne_nil _ _
    · trivial
  numbers := by
    intro id values n hkind
    rcases kind_listings id with ⟨p, h⟩ | ⟨fields, h⟩ | h | h <;> cases h.symm.trans hkind
  lists := by
    intro id item hkind
    rcases kind_listings id with ⟨p, h⟩ | ⟨fields, h⟩ | h | h <;> cases h.symm.trans hkind

theorem mem_ids_listings (id : Nat) : id ∈ [2, 3] ↔ (listings showId).nameOf id ≠ none := by
  rw [nameOf_listings]
  split <;> [simp_all; (split <;> simp_all)]

theorem isTypeName_listing : IsTypeName "Listing" :=
  IsDeclaredName.isTypeName ⟨'L', _, rfl, rfl, List.all_eq_true.1 (by decide)⟩

/-- Where all ids are numbers, movies and shows agree about what they share. -/
theorem membersAgree_listings : MembersAgree (listings 0) := by
  intro id members hkind _ v _ hv values shared hvalues hshared field hfield part hpart
  obtain rfl : members = [2, 3] := by
    rcases kind_listings id with ⟨p, h⟩ | ⟨fields, h⟩ | h | h <;> cases h.symm.trans hkind
    rfl
  obtain rfl : [⟨"id", 0, true, none⟩] = shared := Option.some.inj hshared
  obtain rfl := List.mem_singleton.1 hfield
  obtain ⟨member, hmember, hconforms⟩ := hv
  have hadmits : Admits (Conforms (listings 0)) (.object [⟨"id", 0, true, none⟩]) v := by
    rcases List.mem_pair.1 hmember with rfl | rfl
    · exact hconforms.admits
    · exact hconforms.admits
  rw [hvalues] at hadmits
  exact (hadmits _ (List.mem_singleton_self _)).present part hpart

/-- Whatever is a movie or a show is also of the type that is read. -/
theorem parseDeclarations_widened_listings :
    (Widenable (listings 0) ∧ [2, 3].Nodup ∧ (∀ id, id ∈ [2, 3] ↔ (listings 0).nameOf id ≠ none) ∧
      IsTypeName "Listing" ∧ (listings 0).lookup "Listing" = none ∧
      (listings 0).kind 4 = .union [2, 3] ∧ 1 < [2, 3].length ∧ MembersAgree (listings 0)) ∧
    ∃ e k node, widening.expr? (listings 0) 4 = some e ∧
      parseDeclarations (wideningText (listings 0) [2, 3] "Listing" e) = .ok k ∧
      k.lookup "Listing" = some node ∧
      ∀ v, NullFree v → (∃ member ∈ [2, 3], Conforms (listings 0) member v) →
        Conforms k node v := by
  have hunion : (listings 0).kind 4 = .union [2, 3] := rfl
  obtain ⟨e, k, node, he, hparse, hnode, -, hwidens⟩ := parseDeclarations_widened widenable_listings
    (by decide) mem_ids_listings isTypeName_listing rfl hunion (by decide)
  exact ⟨⟨widenable_listings, by decide, mem_ids_listings, isTypeName_listing, rfl,
    hunion, by decide, membersAgree_listings⟩, e, k, node, he, hparse, hnode,
      hwidens membersAgree_listings⟩

/-- A show whose id is a text. -/
def textualShow : Json := .object [("id", .string "a")]

/-- Where movies have numbers as ids and shows texts, a show is not of the type that is read for one
or the other, which asks for a number. -/
theorem not_conforms_widened_listings : ∃ e k node, widening.expr? (listings 1) 4 = some e ∧
    parseDeclarations (wideningText (listings 1) [2, 3] "Listing" e) = .ok k ∧
    k.lookup "Listing" = some node ∧ NullFree textualShow ∧ Conforms (listings 1) 3 textualShow ∧
    ¬Conforms k node textualShow := by
  have hfree : NullFree textualShow := .object (List.forall_mem_singleton.2 (.string "a"))
  have hshow : Conforms (listings 1) 3 textualShow := by
    refine Types.conforms_iff.2 (List.forall_mem_singleton.2 ⟨fun part hpart => ?_, fun _ => rfl⟩)
    obtain rfl : .string "a" = part := Option.some.inj hpart
    exact Types.conforms_iff.2 rfl
  have hunion : (listings 1).kind 4 = .union [2, 3] := rfl
  obtain ⟨e, k, node, he, hparse, hnode, -, -, -, hiff⟩ := exists_conforms_iff widenable_listings
    (by decide) mem_ids_listings isTypeName_listing rfl hunion (by decide)
  refine ⟨e, k, node, he, hparse, hnode, hfree, hshow, fun hconforms => ?_⟩
  have hparts := (hiff textualShow hfree ⟨3, by simp, hshow⟩).1 hconforms
  have hid : (expr (listings 1) widening 0).Accepts (Declared k) (.string "a") :=
    hparts _ [⟨"id", 0, true, none⟩] rfl rfl _ (List.mem_singleton_self _) (.string "a") rfl
  have hexpr : expr (listings 1) widening 0 = .primitive .number :=
    widenable_listings.expr_of_anonymous (by decide) rfl
  rw [hexpr] at hid
  exact absurd (accepts_primitive.1 hid) (by decide)

end TypedClient.Declaration
