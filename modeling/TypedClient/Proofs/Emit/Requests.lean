import TypedClient.Proofs.Client.Requirements
import TypedClient.Proofs.Declaration.Descent
import TypedClient.Proofs.Emit.Surface
import TypedClient.Proofs.OpenApi.Parameters

/-!
# Members of requests

An object type in which a name is listed twice is no type.

* `TypeExpr.ListsOnce` says that this happens nowhere in an expression, and `listsOnce_expr` that it
  does not in the expressions of a graph whose fields have distinct names;
* `nodup_groupedMembers` says that it does not in a request that is sorted by place, as no place has
  two parameters of one name;
* `nodup_flatMembers_iff` says that it does in a flat request just if parameters of different places
  have one name: only what comes from the body is compared with the members that are there;
* `requests_listOnce` says this of all operations that are emitted.
-/

set_option autoImplicit false

/-! ## Expressions -/

namespace TypedClient.Declaration

open TypedClient.OpenApi TypedClient.Types

/-- No object type in the expression lists a name twice. -/
inductive TypeExpr.ListsOnce : TypeExpr → Prop
  /-- Every value. -/
  | unknown : ListsOnce .unknown
  /-- A scalar type. -/
  | primitive (p : Primitive) : ListsOnce (.primitive p)
  /-- A constant. -/
  | literal (value : Json) : ListsOnce (.literal value)
  /-- A name. -/
  | name (name : String) : ListsOnce (.name name)
  /-- Lists. -/
  | array {item : TypeExpr} (h : ListsOnce item) : ListsOnce (.array item)
  /-- Objects with members of one type. -/
  | record {value : TypeExpr} (h : ListsOnce value) : ListsOnce (.record value)
  /-- Objects with members of different names. -/
  | object {members : List (Member TypeExpr)} (hnames : (members.map Member.name).Nodup)
      (h : ∀ m ∈ members, ListsOnce m.type) : ListsOnce (.object members)
  /-- A choice. -/
  | union {members : List TypeExpr} (h : ∀ m ∈ members, ListsOnce m) : ListsOnce (.union members)
  /-- Parentheses. -/
  | group {inner : TypeExpr} (h : ListsOnce inner) : ListsOnce (.group inner)
  /-- A type with a comment. -/
  | noted {inner : TypeExpr} {note : String} (h : ListsOnce inner) : ListsOnce (.noted inner note)

variable {g : TypeGraph} {style : Style} {f : TypeId → TypeExpr}

theorem listsOnce_oneOrUnion {es : List TypeExpr} (h : ∀ e ∈ es, e.ListsOnce) :
    (oneOrUnion es).ListsOnce := by
  rw [oneOrUnion.eq_def]
  split
  · exact h _ List.mem_cons_self
  · exact .union h

theorem listsOnce_literalExpr (value : Json) : (literalExpr value).ListsOnce := by
  cases value with
  | null => exact .primitive .null
  | bool | number | string => exact .literal _
  | array | object => exact .unknown

theorem listsOnce_ite {e e' : TypeExpr} (he : e.ListsOnce) (he' : e'.ListsOnce) (c : Prop)
    [Decidable c] : (if c then e else e').ListsOnce := by
  split
  · exact he
  · exact he'

/-- The members of an object type have the names of its fields. -/
theorem listsOnce_membersOf (hf : ∀ id, (f id).ListsOnce) {fields : List Field}
    (hfields : (fields.map Field.name).Nodup) :
    (TypeExpr.object (membersOf style f fields)).ListsOnce := by
  refine .object ?_ (List.forall_mem_map.2 fun field _ => hf field.type)
  rwa [membersOf, List.map_map]

/-- The fields that object types have in common are among those of the first. -/
theorem sublist_commonFields (fields : List Field) (others : List (List Field)) :
    ((commonFields fields others).map Field.name).Sublist (fields.map Field.name) := by
  induction fields with
  | nil => exact List.Sublist.refl _
  | cons field fields ih =>
    rw [commonFields, List.filterMap_cons]
    split
    · exact ih.cons _
    · rename_i shared hshared
      obtain ⟨matching, -, rfl⟩ := Option.map_eq_some_iff.1 hshared
      exact ih.cons_cons _

theorem listsOnce_commonShape (hg : DistinctFields g) (hf : ∀ id, (f id).ListsOnce)
    (members : List TypeId) : (commonShape g style f members).ListsOnce := by
  rw [commonShape.eq_def]
  split
  · exact .primitive .null
  · rename_i fields rest hkinds
    split
    · rename_i shared hshared
      obtain ⟨member, -, hkind⟩ : ∃ member ∈ members, g.kind (g.resolve member) = .object fields :=
        exists_of_mem_memberKinds (by rw [hkinds]; exact List.mem_cons_self)
      have hnodup : (fields.map Field.name).Nodup := hg _ fields hkind
      obtain ⟨others, -, rfl⟩ := Option.map_eq_some_iff.1 hshared
      exact listsOnce_membersOf hf ((sublist_commonFields fields others).nodup hnodup)
    · exact .unknown
  · refine listsOnce_ite (.array .unknown) ?_ _
    split
    · exact listsOnce_ite (.primitive _) .unknown _
    · exact .unknown

theorem listsOnce_kindExpr (hg : DistinctFields g) (hf : ∀ id, (f id).ListsOnce) {kind : TypeKind}
    (hkind : DistinctKind kind) : (kindExpr g style f kind).ListsOnce := by
  cases kind with
  | unknown => exact .unknown
  | primitive p => exact .primitive p
  | object fields => exact listsOnce_membersOf hf (hkind fields rfl)
  | map value => exact .record (hf value)
  | array item => exact .array (listsOnce_ite (.group (hf item)) (hf item) _)
  | enumeration values =>
    exact listsOnce_oneOrUnion (List.forall_mem_map.2 fun v _ => listsOnce_literalExpr v)
  | union members =>
    rw [kindExpr]
    split
    · split
      · exact .noted (listsOnce_commonShape hg hf members)
      · exact listsOnce_oneOrUnion (List.forall_mem_map.2 fun id _ => hf id)
    · exact listsOnce_oneOrUnion
        (List.forall_mem_map.2 fun id _ => listsOnce_ite (.group (hf id)) (hf id) _)

/-- **No object type in the expression for a node lists a name twice** if the fields of every shape
have distinct names. -/
theorem listsOnce_expr (hg : DistinctFields g) (style : Style) (id : TypeId) :
    (expr g style id).ListsOnce :=
  expr_all (fun _ => .unknown) (fun _ name _ => .name name)
    (fun id _ _ hf => listsOnce_kindExpr hg hf (hg id)) id

end TypedClient.Declaration

/-! ## Members -/

namespace TypedClient.Emit

open TypedClient.Api TypedClient.Declaration TypedClient.OpenApi TypedClient.Types

variable {g : TypeGraph} {style : Style} {op : Operation} {parameters : List Parameter}

/-- Parameters outside of the body that have one name have one place. -/
def OnePlaceEach (op : Operation) : Prop :=
  ∀ p ∈ plainParameters op, ∀ q ∈ plainParameters op, p.name = q.name → p.location = q.location

theorem names_parameterMembers (g : TypeGraph) (style : Style) (parameters : List Parameter) :
    (parameterMembers g style parameters).map Member.name = parameters.map Parameter.name := by
  rw [parameterMembers, List.map_map]
  rfl

/-- Adding a member makes no name occur twice. -/
theorem nodup_addMember {members : List (Member TypeExpr)} (new : Member TypeExpr)
    (h : (members.map Member.name).Nodup) : ((addMember members new).map Member.name).Nodup := by
  rw [addMember]
  split
  · exact h
  · rename_i hfree
    rw [List.map_append]
    refine List.nodup_append.2 ⟨h, List.nodup_singleton _, ?_⟩
    rintro name hname other hother rfl
    obtain ⟨m, hm, rfl⟩ := List.mem_map.1 hname
    rw [List.map_singleton, List.mem_singleton] at hother
    exact hfree (List.any_eq_true.2 ⟨m, hm, beq_iff_eq.2 hother⟩)

/-- Whether a name occurs twice is up to the members that are there before any are added. -/
theorem nodup_foldl_addMember_iff (added members : List (Member TypeExpr)) :
    ((added.foldl addMember members).map Member.name).Nodup ↔ (members.map Member.name).Nodup := by
  induction added generalizing members with
  | nil => rfl
  | cons new added ih =>
    rw [List.foldl_cons, ih]
    refine ⟨fun h => ?_, nodup_addMember new⟩
    rw [addMember] at h
    split at h
    · exact h
    · rw [List.map_append] at h
      exact (List.nodup_append.1 h).1

/-- A flat request lists a name twice just if two parameters outside of the body do. -/
theorem nodup_flatMembers : ((flatMembers g style op).map Member.name).Nodup ↔
    ((plainParameters op).map Parameter.name).Nodup := by
  rw [flatMembers, ← names_parameterMembers g style]
  split
  · rfl
  · exact nodup_foldl_addMember_iff _ _

/-- Where no two parameters have the same name and place, names of parameters occur once if each has
one place. -/
theorem nodup_plainParameters_iff (hdistinct : (op.parameters.map argumentKey).Nodup) :
    ((plainParameters op).map Parameter.name).Nodup ↔ OnePlaceEach op := by
  have hplain : ((plainParameters op).map argumentKey).Nodup :=
    (List.filter_sublist.map _).nodup hdistinct
  constructor
  · intro h p hp q hq hname
    rw [List.inj_on_of_nodup_map h hp hq hname]
  · intro h
    refine List.Nodup.map_on (fun p hp q hq hname => ?_) hplain.of_map
    exact List.inj_on_of_nodup_map hplain hp hq (Prod.ext hname (h p hp q hq hname))

theorem nodup_flatMembers_iff (hdistinct : (op.parameters.map argumentKey).Nodup) :
    ((flatMembers g style op).map Member.name).Nodup ↔ OnePlaceEach op :=
  nodup_flatMembers.trans (nodup_plainParameters_iff hdistinct)

/-- Parameters of one place have different names. -/
theorem nodup_parametersIn (hdistinct : (op.parameters.map argumentKey).Nodup)
    (location : Location) : ((op.parametersIn location).map Parameter.name).Nodup := by
  have hplace : ((op.parametersIn location).map argumentKey).Nodup :=
    (List.filter_sublist.map _).nodup hdistinct
  refine List.Nodup.map_on (fun p hp q hq hname => ?_) hplace.of_map
  have hlocation {p : Parameter} (hp : p ∈ op.parametersIn location) : p.location = location :=
    of_decide_eq_true (List.mem_filter.1 hp).2
  exact List.inj_on_of_nodup_map hplace hp hq
    (Prod.ext hname ((hlocation hp).trans (hlocation hq).symm))

/-- A request that is sorted by place has at most one member for each place. -/
theorem sublist_groupedMembers : ((groupedMembers g style op).map Member.name).Sublist
    (["path"] ++ ["query"] ++ ["headers"] ++ ["body"]) := by
  have hbody : ((op.body?.map fun body => memberOf style "body" body.required
      (bodyType g style op body)).toList.map Member.name).Sublist ["body"] := by
    cases op.body? with
    | none => exact List.nil_sublist _
    | some body => exact List.Sublist.refl _
  simp only [groupedMembers, List.map_append]
  refine ((List.Sublist.append ?_ ?_).append ?_).append hbody
  all_goals
    split
    · exact List.nil_sublist _
    · exact List.Sublist.refl _

theorem nodup_groupedMembers : ((groupedMembers g style op).map Member.name).Nodup :=
  sublist_groupedMembers.nodup (by decide)

/-! ## Types of members -/

theorem listsOnce_parameterMembers (hg : DistinctFields g) (style : Style)
    (parameters : List Parameter) :
    AllMembers TypeExpr.ListsOnce (parameterMembers g style parameters) :=
  List.forall_mem_map.2 fun p _ => listsOnce_expr hg style p.type

theorem listsOnce_bodyType (hg : DistinctFields g) (op : Operation) (body : Parameter) :
    (bodyType g style op body).ListsOnce :=
  listsOnce_ite (.name "FormData") (listsOnce_expr hg style body.type) _

theorem listsOnce_flatMembers (hg : DistinctFields g) (op : Operation) :
    AllMembers TypeExpr.ListsOnce (flatMembers g style op) := by
  have hplain := listsOnce_parameterMembers hg style (plainParameters op)
  rw [flatMembers]
  split
  · exact hplain
  · rename_i body hbody
    refine AllMembers.foldl_addMember ?_ hplain
    split
    · exact List.forall_mem_map.2 fun field _ => listsOnce_expr hg style field.type
    · exact List.forall_mem_singleton.2 (listsOnce_bodyType hg op body)

theorem listsOnce_groupedMembers (hg : DistinctFields g)
    (hdistinct : (op.parameters.map argumentKey).Nodup) :
    AllMembers TypeExpr.ListsOnce (groupedMembers g style op) := by
  have hgroup (location : Location) :
      (TypeExpr.object (parameterMembers g style (op.parametersIn location))).ListsOnce := by
    refine .object ?_ (listsOnce_parameterMembers hg style _)
    rw [names_parameterMembers]
    exact nodup_parametersIn hdistinct location
  have hbody : AllMembers TypeExpr.ListsOnce (op.body?.map fun body =>
      memberOf style "body" body.required (bodyType g style op body)).toList := by
    intro m hm
    obtain ⟨body, -, rfl⟩ := Option.map_eq_some_iff.1 (Option.mem_toList.1 hm)
    exact listsOnce_bodyType hg op body
  rw [groupedMembers]
  refine ((AllMembers.append ?_ ?_).append ?_).append hbody
  all_goals
    dsimp only
    split
    · exact List.forall_mem_nil _
    · exact List.forall_mem_singleton.2 (hgroup _)

/-! ## Requests -/

/-- The members of the request of an operation. -/
def requestMembers (g : TypeGraph) (options : Options) (op : Operation) : List (Member TypeExpr) :=
  if options.fullRequest then groupedMembers g options.style op else flatMembers g options.style op

variable {api : Definition} {options : Options}

theorem claiming_operationTypes (g : TypeGraph) (options : Options) (op : Operation) :
    Claiming (fun names t => names = t.statements.map Statement.name ∧ ∃ others,
      t.statements = .interface t.request (requestMembers g options op) :: others)
      (operationTypes g options op) := by
  intro taken
  have hall : Composed (fun _ => True) g options.style := by constructor <;> intros <;> trivial
  have htypes : Claiming (fun names t => names = t.statements.map Statement.name ∧
      t.All (fun _ => True) op) (operationTypes g options op) :=
    operationTypes_all hall fun _ _ _ _ => trivial
  obtain ⟨names, hclaimed, hnames, -⟩ := htypes taken
  exact ⟨names, hclaimed, hnames, _, rfl⟩

/-- Every operation is emitted with an interface for its requests. -/
theorem forall₂_requests (api : Definition) (options : Options) :
    List.Forall₂ (fun op (e : Entry) => e.operation = op ∧ ∃ others, e.types.statements =
      .interface e.types.request (requestMembers api.types options op) :: others)
      api.operations (Surface.of api options).entries := by
  have hnames : (Surface.of api options).Names (fun op t => ∃ others, t.statements =
      .interface t.request (requestMembers api.types options op) :: others) api options :=
    names_surface fun op _ => claiming_operationTypes api.types options op
  exact hnames.entries.imp fun _ _ h => ⟨h.1, h.2.2⟩

/-- **A request lists every name once** if it is sorted by place, and a flat request does just if
parameters outside of the body that have one name have one place.  The object types in it list every
name once in any case. -/
theorem requests_listOnce {document : Json} {kind : Option SchemaKind}
    (h : normalize document kind = .ok api) (hkind : api.kind = .openApi) (options : Options) :
    List.Forall₂ (fun op (e : Entry) => e.operation = op ∧ ∃ members others,
      e.types.statements = .interface e.types.request members :: others ∧
      (∀ m ∈ members, m.type.ListsOnce) ∧
      ((members.map Member.name).Nodup ↔ options.fullRequest = true ∨ OnePlaceEach op))
      api.operations (Surface.of api options).entries := by
  have hfields := distinctFields_of_normalize h hkind
  obtain ⟨d, -, hfollows⟩ := follows_of_normalize h hkind
  refine forall₂_mono (forall₂_requests api options) fun op hop e _ he => ?_
  obtain ⟨hop', others, hstatements⟩ := he
  obtain ⟨decl, -, -, ofPath, ofOperation, -, -, hdistinct⟩ := exists_of_mem_right hfollows hop
  refine ⟨hop', _, others, hstatements, ?_⟩
  rw [requestMembers]
  split
  · rename_i hfull
    exact ⟨listsOnce_groupedMembers hfields hdistinct.distinct,
      iff_of_true nodup_groupedMembers (.inl hfull)⟩
  · rename_i hflat
    rw [nodup_flatMembers_iff hdistinct.distinct, or_iff_right hflat]
    exact ⟨listsOnce_flatMembers hfields op, Iff.rfl⟩

/-- The flat request of `updateMovie` lists every name once: the identifier in the path and the one
in the body are one member. -/
theorem requests_listOnce_movies :
    normalize moviesDocument none = .ok moviesApi ∧ moviesApi.kind = .openApi ∧
      ∃ e ∈ (Surface.of moviesApi { }).entries, e.operation = updateMovie ∧ ∃ members others,
        e.types.statements = .interface e.types.request members :: others ∧
        (members.map Member.name).Nodup := by
  obtain ⟨e, he, hop, members, others, hstatements, -, hnodup⟩ :=
    exists_of_mem_left (requests_listOnce normalize_movies kind_movies { }) mem_movies
  have honce : OnePlaceEach updateMovie := by
    rw [OnePlaceEach]
    decide
  exact ⟨normalize_movies, kind_movies, e, he, hop, members, others, hstatements,
    hnodup.2 (.inr honce)⟩

/-- A document with an operation whose path and query have parameters of one name. -/
def lendingDocument : Json := .object [
  ("openapi", .string "3.0.3"),
  ("paths", .object [("/loans/\x7bid\x7d", .object [("get", .object [
    ("operationId", .string "findLoan"),
    ("parameters", .array [
      .object [("in", .string "path"), ("name", .string "id"), ("required", .bool true),
        ("schema", textSchema)],
      .object [("in", .string "query"), ("name", .string "id"), ("schema", textSchema)]])])])])]

/-- The definition of the document. -/
def lendingApi : Definition :=
  match normalize lendingDocument none with
  | .ok api => api
  | .error _ => ⟨.openApi, "", "", [], [], .empty, none⟩

theorem normalize_lending : normalize lendingDocument none = .ok lendingApi := by
  obtain ⟨api, hapi⟩ := exists_eq_ok (m := normalize lendingDocument none) (by decide +kernel)
  rw [lendingApi, hapi]

/-- The operation of the document. -/
def findLoan : Operation where
  id := "findLoan"
  declaredId := some "findLoan"
  method := .get
  path := "/loans/\x7bid\x7d"
  summary := none
  parameters := [⟨"id", .path, true, 0, none⟩, ⟨"id", .query, false, 1, none⟩]
  content := none
  responses := []

theorem mem_lending : findLoan ∈ lendingApi.operations := by decide +kernel

/-- The flat request of `findLoan` lists the identifier twice. -/
theorem not_nodup_findLoan :
    ¬∀ (document : Json) (api : Definition) (options : Options),
      normalize document none = .ok api → api.kind = .openApi →
        ∀ e ∈ (Surface.of api options).entries, ∀ members others,
          e.types.statements = .interface e.types.request members :: others →
            (members.map Member.name).Nodup := by
  intro hclaim
  obtain ⟨e, he, -, others, hstatements⟩ :=
    exists_of_mem_left (forall₂_requests lendingApi { }) mem_lending
  have hnodup : ((flatMembers lendingApi.types _ findLoan).map Member.name).Nodup :=
    hclaim lendingDocument lendingApi { } normalize_lending (by decide +kernel) e he _ _ hstatements
  exact absurd (nodup_flatMembers.1 hnodup) (by decide)

end TypedClient.Emit
