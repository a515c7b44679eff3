import TypedClient.Emit.OperationTypes
import TypedClient.Proofs.Api.Operation
import TypedClient.Proofs.Declaration.Declarable
import TypedClient.Proofs.Declaration.Tame
import TypedClient.Proofs.Json.NumberParts
import TypedClient.Proofs.Lists
import TypedClient.Proofs.Naming.TypeName

/-!
# Declarations of operations

The types of operations are declared under names that are claimed one by one, as those of functions
are, and a name that is taken is told apart by a number.  So the names a computation claims are all
different, and different from those that were taken before it.

* `Claimed` says this of two lists of taken names, and `Claimed.append` puts two computations in a
  row;
* `Claiming` says it of a computation, with what its result has to do with the names; the rules are
  `Claiming.bind` and `Claiming.forall₂`.

The declarations are made with a few operations.

* `Composed` says that a property of expressions is kept by everything that these types are made
  with, and `operationTypes_all` that all types of an operation have such a property then, and names
  made from the id of the operation;
* `operationTypes_claiming` says that the declarations can be read, if the types of the graph can be
  written.  A status code stands in a declaration as a number, so it has to be one that is read as a
  number;
* `operationTypes_tame` says that they are tame, whatever the types of the graph are.
-/

set_option autoImplicit false

namespace TypedClient.Emit

open TypedClient.Declaration TypedClient.Naming

variable {α β : Type}

/-- The names are different from each other and from those that were taken before, and they are
taken after. -/
structure Claimed (before names after : List String) : Prop where
  /-- No name is claimed twice. -/
  nodup : names.Nodup
  /-- No name was taken. -/
  free : ∀ name ∈ names, name ∉ before
  /-- Nothing else is taken after than was taken before or has been claimed. -/
  mem_iff : ∀ name, name ∈ after ↔ name ∈ before ∨ name ∈ names

theorem Claimed.nil (taken : List String) : Claimed taken [] taken :=
  ⟨List.nodup_nil, List.forall_mem_nil _, fun _ => by simp⟩

/-- Names that are claimed later differ from those that were claimed earlier. -/
theorem Claimed.append {before names middle others after : List String}
    (h : Claimed before names middle) (h' : Claimed middle others after) :
    Claimed before (names ++ others) after := by
  refine ⟨List.nodup_append.2 ⟨h.nodup, h'.nodup, ?_⟩, fun name hname => ?_, fun name => ?_⟩
  · rintro name hname other hother rfl
    exact h'.free name hother ((h.mem_iff name).2 (.inr hname))
  · rcases List.mem_append.1 hname with hname | hname
    · exact h.free name hname
    · exact fun hbefore => h'.free name hname ((h.mem_iff name).2 (.inl hbefore))
  · rw [h'.mem_iff, h.mem_iff, List.mem_append, or_assoc]

/-- A computation claims names, and `Q` holds of these and its result. -/
def Claiming (Q : List String → α → Prop) (m : Claims α) : Prop :=
  ∀ taken, ∃ names, Claimed taken names (m taken).2 ∧ Q names (m taken).1

theorem Claiming.mono {P Q : List String → α → Prop} {m : Claims α} (h : Claiming P m)
    (hPQ : ∀ names a, P names a → Q names a) : Claiming Q m := by
  intro taken
  obtain ⟨names, hclaimed, hP⟩ := h taken
  exact ⟨names, hclaimed, hPQ _ _ hP⟩

theorem claiming_pure {Q : List String → α → Prop} {a : α} (h : Q [] a) :
    Claiming Q (pure a : Claims α) := fun taken => ⟨[], .nil taken, h⟩

theorem Claiming.bind {P : List String → α → Prop} {S : List String → β → Prop} {m : Claims α}
    {f : α → Claims β} (h : Claiming P m)
    (hf : ∀ names a, P names a → Claiming (fun others b => S (names ++ others) b) (f a)) :
    Claiming S (m >>= f) := by
  intro taken
  obtain ⟨names, hfirst, hP⟩ := h taken
  obtain ⟨others, hsecond, hS⟩ := hf names (m taken).1 hP (m taken).2
  exact ⟨names ++ others, hfirst.append hsecond, hS⟩

/-- The name that is claimed is the candidate or a numbered variant of it. -/
theorem claiming_claimName (candidate : String) :
    Claiming (fun names name => names = [name] ∧ ∃ taken, name = freeName taken candidate)
      (claimName candidate) := by
  intro taken
  have hfree := freeName_not_mem taken candidate
  refine ⟨[freeName taken candidate], ⟨List.nodup_singleton _, ?_, fun name => ?_⟩, rfl, taken, rfl⟩
  · exact List.forall_mem_singleton.2 hfree
  · change name ∈ freeName taken candidate :: taken ↔ _
    rw [List.mem_cons, List.mem_singleton, or_comm]

/-- The name is the candidate or a numbered variant of it. -/
def IsVariant (candidate name : String) : Prop := ∃ taken, name = freeName taken candidate

/-- A numbered variant of a name that can be declared can be declared. -/
theorem claiming_declaredName {candidate : String} (h : IsDeclaredName candidate) :
    Claiming (fun names name => names = [name] ∧ IsDeclaredName name ∧ IsVariant candidate name)
      (claimName candidate) := by
  refine (claiming_claimName candidate).mono fun names name ⟨hnames, taken, hname⟩ =>
    ⟨hnames, ?_, taken, hname⟩
  rw [hname]
  exact isDeclaredName_freeName taken h

/-- Results that claim names of their own, one after the other, each for one of the inputs. -/
theorem Claiming.forall₂ {names : β → List String} {R : α → β → Prop} {f : α → Claims β}
    {xs : List α} (h : ∀ x ∈ xs, Claiming (fun ns b => ns = names b ∧ R x b) (f x)) :
    Claiming (fun ns bs => ns = bs.flatMap names ∧ List.Forall₂ R xs bs) (xs.mapM f) := by
  induction xs with
  | nil => exact claiming_pure ⟨rfl, .nil⟩
  | cons x xs ih =>
    rw [List.mapM_cons]
    refine (h x List.mem_cons_self).bind fun ns b hb => ?_
    refine (ih fun y hy => h y (List.mem_cons_of_mem _ hy)).bind fun ms bs hbs => ?_
    refine claiming_pure ⟨?_, .cons hb.2 hbs.2⟩
    rw [List.flatMap_cons, hb.1, hbs.1, List.append_nil]

/-- The part of a name that stands for a status consists of letters and digits. -/
theorem isIdentifierPart_of_mem_label (status : Api.StatusKey) :
    ∀ c ∈ status.label.toList, isIdentifierPart c = true := by
  cases status with
  | code n => exact isIdentifierPart_of_mem_toString n
  | range n =>
    intro c hc
    rw [Api.StatusKey.label, String.toList_append] at hc
    rcases List.mem_append.1 hc with hc | hc
    · exact isIdentifierPart_of_mem_toString n c hc
    · exact List.all_eq_true.1 (by decide : "XX".toList.all isIdentifierPart = true) c hc
  | default => exact List.all_eq_true.1 (by decide)

end TypedClient.Emit

/-! ## Types of operations -/

namespace TypedClient.Emit

open TypedClient.Api TypedClient.Declaration TypedClient.Types

variable {g : TypeGraph} {op : Operation} {options : Options} {P : TypeExpr → Prop} {style : Style}

/-- The property is one of all expressions that the types of operations are made with. -/
structure Composed (P : TypeExpr → Prop) (g : TypeGraph) (style : Style) : Prop where
  /-- The expressions for nodes have the property. -/
  expr : ∀ id, P (expr g style id)
  /-- So has the type of all values. -/
  unknown : P .unknown
  /-- So have scalar types. -/
  primitive : ∀ p, P (.primitive p)
  /-- So have names. -/
  name : ∀ name, IsDeclaredName name → P (.name name)
  /-- So has a choice between names. -/
  choice : ∀ names, names ≠ [] → (∀ name ∈ names, IsDeclaredName name) →
    P (oneOrUnion (names.map TypeExpr.name))
  /-- So have objects with members of one type. -/
  record : ∀ value, P value → P (.record value)
  /-- So have objects. -/
  object : ∀ members : List (Member TypeExpr), (∀ m ∈ members, P m.type) → P (.object members)

/-! ## Members of requests -/

/-- The types of all members have the property. -/
def AllMembers (P : TypeExpr → Prop) (members : List (Member TypeExpr)) : Prop :=
  ∀ m ∈ members, P m.type

theorem AllMembers.append {ms ns : List (Member TypeExpr)} (hm : AllMembers P ms)
    (hn : AllMembers P ns) : AllMembers P (ms ++ ns) :=
  List.forall_mem_append.2 ⟨hm, hn⟩

theorem AllMembers.foldl_addMember {added members : List (Member TypeExpr)}
    (hadded : AllMembers P added) (h : AllMembers P members) :
    AllMembers P (added.foldl addMember members) := by
  induction added generalizing members with
  | nil => exact h
  | cons new added ih =>
    obtain ⟨hnew, hrest⟩ := List.forall_mem_cons.1 hadded
    refine ih hrest ?_
    rw [addMember]
    split
    · exact h
    · exact h.append (List.forall_mem_singleton.2 hnew)

namespace Composed

section Members

variable (hP : Composed P g style)

include hP

theorem parameterMembers (parameters : List Parameter) :
    AllMembers P (parameterMembers g style parameters) := by
  intro m hm
  obtain ⟨p, -, rfl⟩ := List.mem_map.1 hm
  exact hP.expr p.type

theorem bodyType (op : Operation) (body : Parameter) : P (bodyType g style op body) := by
  rw [Emit.bodyType]
  split
  · exact hP.name "FormData" ⟨'F', "ormData".toList, rfl, rfl, List.all_eq_true.1 (by decide)⟩
  · exact hP.expr body.type

theorem flatMembers (op : Operation) : AllMembers P (flatMembers g style op) := by
  have hplain := hP.parameterMembers (plainParameters op)
  rw [Emit.flatMembers]
  cases op.body? with
  | none => exact hplain
  | some body =>
    refine AllMembers.foldl_addMember ?_ hplain
    cases bodyFields? g op body with
    | none => exact List.forall_mem_singleton.2 (hP.bodyType op body)
    | some fields =>
      intro m hm
      obtain ⟨field, -, rfl⟩ := List.mem_map.1 hm
      exact hP.expr field.type

theorem groupedMembers (op : Operation) : AllMembers P (groupedMembers g style op) := by
  have hgroup {parameters : List Parameter} (name : String) (required : Bool) :
      AllMembers P
        [memberOf style name required (.object (Emit.parameterMembers g style parameters))] :=
    List.forall_mem_singleton.2 (hP.object _ (hP.parameterMembers parameters))
  rw [Emit.groupedMembers]
  refine ((AllMembers.append ?_ ?_).append ?_).append ?body
  case body =>
    intro m hm
    obtain ⟨body, -, rfl⟩ := Option.map_eq_some_iff.1 (Option.mem_toList.1 hm)
    exact hP.bodyType op body
  all_goals
    dsimp only
    split
    · exact List.forall_mem_nil _
    · exact hgroup _ _

end Members

/-! ## Responses -/

theorem responseBody (hP : Composed P g style) (response : Response) :
    P (responseBody g style response) := by
  rw [Emit.responseBody]
  split
  · exact hP.expr _
  · exact hP.unknown

/-- The declaration of a response has its name, and its types have the property. -/
theorem responseStatement (hP : Composed P g options.style) (name : String) {response : Response}
    (hcode : ∀ code, response.status = .code code → P (.literal (.ofNat code))) :
    (responseStatement g options name response).name = name ∧
      (responseStatement g options name response).All P := by
  have hbody := hP.responseBody response
  simp only [Emit.responseStatement]
  split
  · refine ⟨rfl, ?_⟩
    refine List.forall_mem_cons.2 ⟨?_, List.forall_mem_cons.2
      ⟨hP.record _ (hP.primitive .string), List.forall_mem_singleton.2 hbody⟩⟩
    cases hstatus : response.status with
    | code code => exact hcode code hstatus
    | range | default => exact hP.primitive .number
  · exact ⟨rfl, hbody⟩

end Composed

/-! ## Operations -/

/-- Names that are made from the id of an operation: one for requests, one for each response, and
one for all responses together. -/
def NamedAfter (op : Operation) (names : List String) : Prop :=
  ∃ request responses all, names = request :: responses ++ [all] ∧
    IsVariant (Naming.typeName op.id ++ "Request") request ∧
    List.Forall₂ (fun response name =>
      IsVariant (Naming.typeName op.id ++ "Response" ++ response.status.label) name) op.responses
      responses ∧
    IsVariant (Naming.typeName op.id ++ "Responses") all

/-- The types of an operation have names that are made from its id, and the property. -/
structure OperationTypes.All (P : TypeExpr → Prop) (op : Operation) (t : OperationTypes) :
    Prop where
  /-- The names are made from the id. -/
  named : NamedAfter op (t.statements.map Statement.name)
  /-- The name of the type of requests can be declared. -/
  request : IsDeclaredName t.request
  /-- So can the name of the type of responses. -/
  responses : IsDeclaredName t.responses
  /-- The names of all types can be declared, and the types have the property. -/
  statements : ∀ s ∈ t.statements, IsDeclaredName s.name ∧ s.All P

theorem responseStatements_all (hP : Composed P g options.style) {base : String}
    (hbase : IsDeclaredName base) {responses : List Response}
    (hcodes : ∀ response ∈ responses, ∀ code, response.status = .code code →
      P (.literal (.ofNat code))) :
    Claiming (fun names ss => names = ss.flatMap (fun s => [s.name]) ∧
        List.Forall₂ (fun response s => (IsDeclaredName s.name ∧ s.All P) ∧
          IsVariant (base ++ "Response" ++ response.status.label) s.name) responses ss)
      (responseStatements g options base responses) := by
  refine Claiming.forall₂ fun response hresponse => ?_
  have hcandidate : IsDeclaredName (base ++ "Response" ++ response.status.label) :=
    (hbase.append (List.all_eq_true.1 (by decide))).append (isIdentifierPart_of_mem_label _)
  refine (claiming_declaredName hcandidate).bind fun names name ⟨hnames, hname, hvariant⟩ =>
    claiming_pure ?_
  obtain ⟨hsame, hall⟩ := hP.responseStatement name (hcodes response hresponse)
  rw [hsame, hnames, List.append_nil]
  exact ⟨rfl, ⟨hname, hall⟩, hvariant⟩

/-- **The types of an operation** are declared under names of their own, which are made from its id,
and all have the property. -/
theorem operationTypes_all (hP : Composed P g options.style)
    (hcodes : ∀ response ∈ op.responses, ∀ code, response.status = .code code →
      P (.literal (.ofNat code))) :
    Claiming (fun names t => names = t.statements.map Statement.name ∧ t.All P op)
      (operationTypes g options op) := by
  have hbase := Naming.isDeclaredName_typeName op.id
  have hmembers : AllMembers P (if options.fullRequest then groupedMembers g options.style op
      else flatMembers g options.style op) := by
    split
    · exact hP.groupedMembers op
    · exact hP.flatMembers op
  rw [operationTypes]
  refine (claiming_declaredName (hbase.append (List.all_eq_true.1 (by decide)))).bind
    fun names request ⟨hnames, hrequest, hrequestNamed⟩ => ?_
  refine (responseStatements_all hP hbase hcodes).bind
    fun others declared ⟨hothers, hdeclared⟩ => ?_
  refine (claiming_declaredName (hbase.append (List.all_eq_true.1 (by decide)))).bind
    fun last responses ⟨hlast, hresponses, hresponsesNamed⟩ => claiming_pure ?_
  have hnamed : List.Forall₂ (fun response name => IsVariant
      (Naming.typeName op.id ++ "Response" ++ response.status.label) name) op.responses
      (declared.map Statement.name) :=
    List.forall₂_map_right_iff.2 (forall₂_mono hdeclared fun _ _ _ _ h => h.2)
  have hstatements := forall₂_right hdeclared fun _ _ _ h => h.1
  refine ⟨?_, ⟨request, declared.map Statement.name, responses, by simp [Statement.name],
    hrequestNamed, hnamed, hresponsesNamed⟩, hrequest, hresponses, fun s hs => ?_⟩
  · rw [hnames, hothers, hlast, ← List.map_eq_flatMap]
    simp [Statement.name]
  · rcases List.mem_append.1 hs with hs | hs
    · rcases List.mem_append.1 hs with hs | hs
      · rw [List.mem_singleton.1 hs]
        exact ⟨hrequest, hmembers⟩
      · exact hstatements s hs
    · rw [List.mem_singleton.1 hs]
      refine ⟨hresponses, ?_⟩
      cases declared with
      | nil => exact hP.unknown
      | cons first rest =>
        have hchoice := hP.choice ((first :: rest).map Statement.name) (List.cons_ne_nil _ _)
          (List.forall_mem_map.2 fun s hs => (hstatements s hs).1)
        rwa [List.map_map] at hchoice

/-! ## Declarations that can be read -/

theorem composed_readable (hg : Declarable g) (style : Style) :
    Composed (TypeExpr.Readable fun _ => True) g style where
  expr id := (hg.readable style id).mono fun _ _ => trivial
  unknown := readable_unknown
  primitive := readable_primitive
  name _ hname := readable_name hname.isTypeName trivial
  choice names hne hnames := readable_oneOrUnion (by simpa using hne)
    (List.forall_mem_map.2 fun name hname => readable_name (hnames name hname).isTypeName trivial)
  record _ h := h.record
  object _ h := readable_object h

theorem readable_code {code : Nat} (h : code < 65536) :
    (TypeExpr.literal (.ofNat code)).Readable fun _ => True := by
  have htext : (Json.Number.integer code).text.toList = Nat.toDigits 10 code := by
    rw [Json.Number.text]
    exact Nat.toList_repr
  have hnumber : rereadNumber? (.integer code) = some (.integer code) := by
    have hlimit : code ≤ Json.significandLimit := Nat.le_of_lt (Nat.lt_trans h (by decide))
    rw [rereadNumber?, numberValue?, htext, Json.readNumber_toDigits hlimit]
  exact ⟨.literal (.number _), .literal (.ofNat code), by
    rw [TypeExpr.reread?, Json.ofNat, rereadLiteral?, hnumber]
    rfl⟩

/-- The types of an operation have names that can be declared, and their declarations can be
read. -/
structure OperationTypes.Readable (t : OperationTypes) : Prop where
  /-- The name of the type of requests can be declared. -/
  request : IsDeclaredName t.request
  /-- So can the name of the type of responses. -/
  responses : IsDeclaredName t.responses
  /-- The declarations can be read. -/
  statements : ∀ s ∈ t.statements, ∃ u, s.ReadAs (fun _ => True) u

/-- **The declarations of an operation can be read** if the types of the graph can be written. -/
theorem operationTypes_claiming (hg : Declarable g) (hcodes : op.CodesFit) :
    Claiming (fun names t => names = t.statements.map Statement.name ∧ t.Readable)
      (operationTypes g options op) := by
  refine (operationTypes_all (composed_readable hg options.style)
    fun response hresponse code hcode =>
    readable_code (hcodes response hresponse code hcode)).mono fun names t ⟨hnames, ht⟩ =>
      ⟨hnames, ht.request, ht.responses, fun s hs => ?_⟩
  obtain ⟨hname, hall⟩ := ht.statements s hs
  cases s with
  | interface name members => exact exists_readAs_interface hname.isTypeName hall
  | typeAlias name type => exact exists_readAs_alias hname.isTypeName hall

/-! ## Tame declarations -/

theorem composed_tame (hnames : ∀ id name, g.nameOf id = some name → IsDeclaredName name)
    (style : Style) : Composed TypeExpr.Tame g style where
  expr := tame_expr hnames style
  unknown := .unknown
  primitive := .primitive
  name _ := .name
  choice _ _ hdeclared := tame_oneOrUnion
    (List.forall_mem_map.2 fun name hname => .name (hdeclared name hname))
  record _ := .record
  object _ := .object

/-- **The declarations of an operation are tame**, whatever the types of the graph are. -/
theorem operationTypes_tame (hnames : ∀ id name, g.nameOf id = some name → IsDeclaredName name)
    (op : Operation) :
    Claiming (fun names t => names = t.statements.map Statement.name ∧ t.All TypeExpr.Tame op)
      (operationTypes g options op) :=
  operationTypes_all (composed_tame hnames options.style) fun _ _ _ _ => .literal (.number _)

end TypedClient.Emit
