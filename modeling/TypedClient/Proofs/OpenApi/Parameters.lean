import TypedClient.Proofs.Api.PathTemplate
import TypedClient.Proofs.OpenApi.Declarations

/-!
# The parameters of an operation

A parameter is told apart by its name and its place.  An operation has the parameters that are
declared for its path and for itself, then the placeholders of its path that are not declared, then
its body.

* `inForce` lists of parameters those in force: where one is declared again, the later declaration
  counts, in the place of the first;
* `foldl_overlayParameter` says that merging gives these, and `inForce_append` that what an
  operation declares replaces what its path declares;
* `Follows` lists what is claimed of the parameters of an operation, and `follows_of_normalize`
  shows it of every operation of a definition.
-/

set_option autoImplicit false

namespace TypedClient.OpenApi

open TypedClient.Api

/-! ## Parameters in force -/

/-- What a parameter is told apart by: its name and its place. -/
def ParameterObject.key (p : ParameterObject) : String × String := (p.name, p.place)

/-- The last of the parameters that has the name and the place. -/
def lastOf? (ps : List ParameterObject) (key : String × String) : Option ParameterObject :=
  ps.reverse.find? (·.key == key)

/-- The parameters in force: each name and place where it first occurs, as it is declared last. -/
def inForce (ps : List ParameterObject) : List ParameterObject :=
  (distinct (ps.map ParameterObject.key)).filterMap (lastOf? ps)

variable {ps qs : List ParameterObject} {p q : ParameterObject} {key : String × String}

theorem key_of_lastOf? (h : lastOf? ps key = some p) : p.key = key := by
  simpa using List.find?_some h

theorem lastOf?_append (ps qs : List ParameterObject) (key : String × String) :
    lastOf? (ps ++ qs) key = (lastOf? qs key).or (lastOf? ps key) := by
  rw [lastOf?, List.reverse_append, List.find?_append]
  rfl

theorem lastOf?_isSome : (lastOf? ps key).isSome = true ↔ key ∈ ps.map ParameterObject.key := by
  simp [lastOf?, List.find?_isSome]

theorem lastOf?_eq_none (h : key ∉ ps.map ParameterObject.key) : lastOf? ps key = none := by
  rw [← Option.not_isSome_iff_eq_none, lastOf?_isSome]
  exact h

/-- Every name and place occurs once among the parameters in force. -/
theorem keys_inForce (ps : List ParameterObject) :
    (inForce ps).map ParameterObject.key = distinct (ps.map ParameterObject.key) := by
  rw [inForce, List.map_filterMap, List.filterMap_eq_map_iff_forall_eq_some.2, List.map_id]
  intro key hkey
  obtain ⟨p, hp⟩ := Option.isSome_iff_exists.1 (lastOf?_isSome.2 (mem_distinct.1 hkey))
  rw [hp, Option.map_some, key_of_lastOf? hp]
  rfl

theorem nodup_inForce (ps : List ParameterObject) :
    ((inForce ps).map ParameterObject.key).Nodup := by
  rw [keys_inForce]
  exact nodup_distinct _

/-- A parameter in force is the last of its name and place. -/
theorem mem_inForce : p ∈ inForce ps ↔ lastOf? ps p.key = some p := by
  rw [inForce, List.mem_filterMap]
  constructor
  · rintro ⟨key, -, hlast⟩
    rwa [key_of_lastOf? hlast]
  · intro hlast
    exact ⟨p.key, mem_distinct.2 (lastOf?_isSome.1 (by rw [hlast]; rfl)), hlast⟩

/-! ## Merging -/

/-- What counts in place of a parameter: the last of its name and place that is declared later, if
any is. -/
def replacedBy (later : List ParameterObject) (p : ParameterObject) : ParameterObject :=
  (lastOf? later p.key).getD p

/-- **Later declarations replace earlier ones** of the same name and place, where these stand, and
those that are new follow. -/
theorem inForce_append (ps qs : List ParameterObject) :
    inForce (ps ++ qs) = (inForce ps).map (replacedBy qs)
      ++ (inForce qs).filter fun q => !(ps.map ParameterObject.key).contains q.key := by
  rw [inForce, List.map_append, distinct_append, List.filterMap_append]
  congr 1
  · rw [inForce, List.map_filterMap]
    refine List.filterMap_congr fun key hkey => ?_
    obtain ⟨p, hp⟩ := Option.isSome_iff_exists.1 (lastOf?_isSome.2 (mem_distinct.1 hkey))
    rw [lastOf?_append, hp, Option.map_some, replacedBy, key_of_lastOf? hp]
    cases lastOf? qs key <;> rfl
  · rw [inForce, List.filter_filterMap, List.filterMap_filter]
    refine List.filterMap_congr fun key _ => ?_
    by_cases hmem : key ∈ ps.map ParameterObject.key
    · rw [if_neg (by simpa using hmem), eq_comm, Option.filter_eq_none_iff]
      intro q hq
      rw [key_of_lastOf? hq]
      simpa using hmem
    · rw [if_pos (by simpa using hmem), lastOf?_append, lastOf?_eq_none hmem, Option.or_none]
      cases hq : lastOf? qs key with
      | none => rfl
      | some q =>
        rw [Option.filter_some_pos]
        rw [key_of_lastOf? hq]
        simpa using hmem

theorem replacedBy_singleton (p q : ParameterObject) :
    replacedBy [p] q = if p.key = q.key then p else q := by
  rw [replacedBy, lastOf?, List.reverse_singleton, List.find?_singleton]
  by_cases h : p.key = q.key
  · simp [h]
  · simp [h]

/-- Merging in one more parameter. -/
theorem overlayParameter_eq (hnodup : (ps.map ParameterObject.key).Nodup) (p : ParameterObject) :
    overlayParameter ps p = ps.map (replacedBy [p])
      ++ [p].filter fun q => !(ps.map ParameterObject.key).contains q.key := by
  induction ps with
  | nil => rfl
  | cons first rest ih =>
    rw [List.map_cons, List.nodup_cons] at hnodup
    have hiff : (first.name = p.name ∧ first.place = p.place) ↔ p.key = first.key := by
      rw [eq_comm (a := p.key), ParameterObject.key, ParameterObject.key, Prod.mk.injEq]
    rw [overlayParameter, List.map_cons, replacedBy_singleton, ih hnodup.2]
    simp only [hiff]
    by_cases hfirst : p.key = first.key
    · have hrest : rest.map (replacedBy [p]) = rest := by
        refine (List.map_congr_left fun q hq => ?_).trans (List.map_id rest)
        rw [replacedBy_singleton, if_neg fun heq => hnodup.1 ?_]
        · rfl
        · rw [← hfirst, heq]
          exact List.mem_map_of_mem hq
      simp [hfirst, hrest]
    · have hcontains : (first.key :: rest.map ParameterObject.key).contains p.key
          = (rest.map ParameterObject.key).contains p.key := by
        rw [List.contains_cons, beq_eq_false_iff_ne.2 hfirst, Bool.false_or]
      rw [if_neg hfirst, if_neg hfirst, List.cons_append]
      simp only [List.filter_cons, List.filter_nil, List.map_cons, hcontains]

/-- **Merging gives the parameters in force.** -/
theorem foldl_overlayParameter (ps : List ParameterObject) :
    ps.foldl overlayParameter [] = inForce ps := by
  induction ps using List.reverseRecOn with
  | nil => rfl
  | append_singleton ps p ih =>
    have hkeys : ((inForce ps).map ParameterObject.key).contains p.key
        = (ps.map ParameterObject.key).contains p.key := by
      rw [keys_inForce, Bool.eq_iff_iff, List.contains_iff_mem, List.contains_iff_mem, mem_distinct]
    have hself : inForce [p] = [p] := by
      simp [inForce, distinct, lastOf?]
    rw [List.foldl_append, ih, List.foldl_cons, List.foldl_nil,
      overlayParameter_eq (nodup_inForce ps), inForce_append, hself]
    simp only [List.filter_cons, List.filter_nil, hkeys]

/-- The parameters of a path and of an operation, where those of the operation replace those of the
path of the same name and place. -/
def overriding (ofPath ofOperation : List ParameterObject) : List ParameterObject :=
  (inForce ofPath).map (replacedBy ofOperation)
    ++ (inForce ofOperation).filter fun q => !(ofPath.map ParameterObject.key).contains q.key

theorem yields_mergeParameters (d : Document) (ofPath ofOperation : List ParameterObject) :
    Yields (mergeParameters d ofPath ofOperation) fun merged => ∃ foundPath foundOperation,
      ofPath.mapM d.parameter = .ok foundPath ∧ ofOperation.mapM d.parameter = .ok foundOperation ∧
        merged = overriding foundPath foundOperation := by
  rw [mergeParameters, List.mapM_append]
  refine (Yields.bind (P := fun found => ∃ foundPath foundOperation,
    ofPath.mapM d.parameter = .ok foundPath ∧ ofOperation.mapM d.parameter = .ok foundOperation ∧
      found = foundPath ++ foundOperation) ?_ fun found hfound => yields_pure ?_)
  · refine (yields_self _).bind fun foundPath hpath => ?_
    refine (yields_self _).bind fun foundOperation hoperation => yields_pure ?_
    exact ⟨foundPath, foundOperation, hpath, hoperation, rfl⟩
  · obtain ⟨foundPath, foundOperation, hpath, hoperation, rfl⟩ := hfound
    refine ⟨foundPath, foundOperation, hpath, hoperation, ?_⟩
    rw [foldl_overlayParameter, inForce_append, overriding]

/-! ## Parameters that are declared -/

/-- The parameters of path, query and head. -/
def placed (ps : List ParameterObject) : List ParameterObject :=
  ps.filter fun p => (placeOf? p.place).isSome

/-- The parameter is what a declared one becomes. -/
structure MadeOf (p : ParameterObject) (made : Parameter) : Prop where
  /-- The name stays. -/
  name : made.name = p.name
  /-- The place is what the document's name for it stands for. -/
  place : placeOf? p.place = some made.location
  /-- What is required stays so, and parameters of the path are required in any case. -/
  required : made.required = (p.required || made.location = .path)
  /-- The description stays. -/
  description : made.description = p.description

/-- What an argument of an operation is told apart by. -/
def argumentKey (p : Parameter) : String × Location := (p.name, p.location)

theorem placeOf?_inj {place other : String} {location : Location}
    (h : placeOf? place = some location) (hother : placeOf? other = some location) :
    place = other := by
  rw [placeOf?.eq_def] at h hother
  split at h <;> cases h <;> split at hother <;> first | rfl | cases hother

theorem sortParameter_places (d : Document) (op : OperationObject) {done : List ParameterObject}
    {sorted : Sorted} (h : List.Forall₂ MadeOf (placed done) sorted.parameters)
    (p : ParameterObject) :
    Keeps (fun _ => True)
      (fun sorted => List.Forall₂ MadeOf (placed (done ++ [p])) sorted.parameters)
      (sortParameter d op sorted p) := by
  have hlast : placed (done ++ [p]) = placed done ++ placed [p] := List.filter_append _ _
  rw [sortParameter, hlast]
  split
  · rename_i location hlocation
    have hplaced : placed [p] = [p] := by simp [placed, hlocation]
    refine (keeps_true _).bind fun type _ => keeps_pure (List.rel_append h ?_)
    rw [hplaced]
    exact .cons ⟨rfl, hlocation, rfl, rfl⟩ .nil
  · rename_i hlocation
    have hplaced : placed [p] = [] := by simp [placed, hlocation]
    rw [hplaced, List.append_nil]
    split
    · exact (keeps_true _).bind fun type _ => keeps_pure h
    · split
      · exact keeps_pure h
      · exact keeps_pure h

/-- What is added to the declared parameters are placeholders of the path, so that no two parameters
have the same name and place. -/
structure Completes (path : String) (declared all : List Parameter) : Prop where
  /-- The declared parameters come first, and the others are placeholders. -/
  added : ∃ added, all = declared ++ added ∧
    ∀ p ∈ added, p.location = .path ∧ p.name ∈ placeholders path
  /-- Every name and place occurs once. -/
  distinct : (all.map argumentKey).Nodup

theorem addPlaceholders_completes (d : Document) (path : String) {declared : List Parameter}
    (h : (declared.map argumentKey).Nodup) :
    Keeps (fun _ => True) (Completes path declared) (addPlaceholders d path declared) := by
  rw [addPlaceholders]
  refine Keeps.foldlM (fun name hname all hall => ?_)
    ⟨⟨[], (List.append_nil _).symm, List.forall_mem_nil _⟩, h⟩
  split
  · exact keeps_pure hall
  · rename_i hnew
    refine (keeps_true _).bind fun type _ => keeps_pure ?_
    obtain ⟨⟨added, rfl, hadded⟩, hdistinct⟩ := hall
    refine ⟨⟨added ++ [⟨name, .path, true, type, none⟩], List.append_assoc .., ?_⟩, ?_⟩
    · exact List.forall_mem_append.2 ⟨hadded, List.forall_mem_singleton.2 ⟨rfl, hname⟩⟩
    · rw [List.map_append]
      refine List.nodup_append.2 ⟨hdistinct, List.pairwise_singleton _ _, ?_⟩
      intro key hkey other hother heq
      obtain ⟨p, hp, rfl⟩ := List.mem_map.1 hkey
      rw [List.map_singleton, List.mem_singleton] at hother
      rw [hother, argumentKey, argumentKey, Prod.mk.injEq] at heq
      refine hnew (List.any_eq_true.2 ⟨p, hp, ?_⟩)
      simp [heq.1, heq.2]

/-- The arguments made of parameters with names and places of their own have those too. -/
theorem nodup_argumentKey {ps : List ParameterObject} {made : List Parameter}
    (hps : (ps.map ParameterObject.key).Nodup) (h : List.Forall₂ MadeOf ps made) :
    (made.map argumentKey).Nodup := by
  refine List.pairwise_map.2 (pairwise_of_forall₂ h (List.pairwise_map.1 hps) ?_)
  intro p p' q q' hq hq' hne heq
  rw [argumentKey, argumentKey, Prod.mk.injEq] at heq
  refine hne (Prod.ext ?_ ?_)
  · exact hq.name.symm.trans (heq.1.trans hq'.name)
  · exact placeOf?_inj hq.place (heq.2 ▸ hq'.place)

theorem nodup_overriding (ofPath ofOperation : List ParameterObject) :
    ((overriding ofPath ofOperation).map ParameterObject.key).Nodup := by
  rw [overriding, ← inForce_append]
  exact nodup_inForce _

/-! ## Operations -/

/-- The parameters of an operation are made of those that are declared for its path and for itself,
as they are found, with placeholders after them and perhaps a body at the end. -/
def Lists (d : Document) (decl : Declaration) (op : Operation) : Prop :=
  ∃ ofPath ofOperation declared all, ∃ body : Option Body,
    decl.item.parameters.mapM d.parameter = .ok ofPath ∧
    decl.object.parameters.mapM d.parameter = .ok ofOperation ∧
    List.Forall₂ MadeOf (placed (overriding ofPath ofOperation)) declared ∧
    Completes decl.path declared all ∧
    op.parameters = all ++ (body.map Body.parameter).toList ∧ op.content = body.map Body.content

theorem buildOperation_lists (d : Document) (version : Version) (decl : Declaration) :
    Keeps (fun _ => True) (Lists d decl)
      (buildOperation d version decl.path decl.item decl.method decl.object) := by
  rw [buildOperation]
  refine (keeps_lift (yields_mergeParameters d _ _)).bind fun merged hmerged => ?_
  obtain ⟨ofPath, ofOperation, hpath, hoperation, rfl⟩ := hmerged
  have hnone : List.Forall₂ MadeOf (placed []) [] := .nil
  refine (Keeps.foldlM_prefix
    (S := fun done sorted => List.Forall₂ MadeOf (placed done) sorted.parameters)
    (fun done p sorted hsorted => sortParameter_places d _ hsorted p) _ hnone).bind
      fun sorted hsorted => ?_
  rw [List.nil_append] at hsorted
  have hkeys : ((placed (overriding ofPath ofOperation)).map ParameterObject.key).Nodup :=
    (nodup_overriding ofPath ofOperation).sublist (List.filter_sublist.map _)
  refine (addPlaceholders_completes d decl.path (nodup_argumentKey hkeys hsorted)).bind
    fun all hall => ?_
  -- whether there is a request body and whether there are form fields
  split
  all_goals split
  all_goals iterate 3 refine (keeps_true _).bind fun _ _ => ?_
  all_goals exact keeps_pure ⟨ofPath, ofOperation, sorted.parameters, all, _, hpath, hoperation,
    hsorted, hall, rfl, rfl⟩

/-- What is known of the parameters of an operation, by those that are declared for its path and for
itself. -/
structure Follows (ofPath ofOperation : List ParameterObject) (op : Operation) : Prop where
  /-- No two parameters have the same name and place. -/
  distinct : (op.parameters.map argumentKey).Nodup
  /-- The parameters of the path are required. -/
  required : ∀ p ∈ op.parameters, p.location = .path → p.required = true
  /-- Every placeholder of the path has exactly one parameter of the path. -/
  placeholder : ∀ name ∈ placeholders op.path,
    (op.parameters.map argumentKey).count (name, .path) = 1
  /-- There is at most one body. -/
  body : (op.parametersIn .body).length ≤ 1
  /-- The body is the last parameter. -/
  last : ∃ others, op.parameters = others ++ op.parametersIn .body
  /-- There is a body just if there is content for one. -/
  content : op.content.isSome = true ↔ op.parametersIn .body ≠ []
  /-- The parameters of path, query and head that are declared come first, each of them as it is
  declared last and in the place where it is declared first; the others are placeholders and the
  body. -/
  declared : ∃ declared added,
    op.parameters = declared ++ added ++ op.parametersIn .body ∧
    List.Forall₂ MadeOf (placed (overriding ofPath ofOperation)) declared ∧
    ∀ p ∈ added, p.location = .path ∧ p.name ∈ placeholders op.path
  /-- Each declared parameter of path, query or head occurs exactly once. -/
  once : ∀ p ∈ ofPath ++ ofOperation, ∀ location, placeOf? p.place = some location →
    (op.parameters.map argumentKey).count (p.name, location) = 1

theorem Arranged.parametersIn_body {op : Operation} (h : Arranged op) :
    op.parametersIn .body = op.body?.toList := by
  obtain ⟨plain, hplain, hparameters⟩ := h.parameters
  have hnone : plain.filter (·.location = .body) = [] :=
    List.filter_eq_nil_iff.2 fun p hp => by simpa using (hplain p hp).place
  rw [Operation.parametersIn]
  conv_lhs => rw [hparameters, List.filter_append, hnone, List.nil_append]
  refine List.filter_eq_self.2 fun p hp => ?_
  simpa using (h.body p (Option.mem_toList.1 hp)).place

/-- Every declared parameter of path, query or head has become one of the operation. -/
theorem exists_argument {declared : List Parameter} {p : ParameterObject} {location : Location}
    (h : List.Forall₂ MadeOf (placed (inForce ps)) declared) (hp : p ∈ ps)
    (hlocation : placeOf? p.place = some location) :
    (p.name, location) ∈ declared.map argumentKey := by
  obtain ⟨q, hq⟩ := Option.isSome_iff_exists.1 (lastOf?_isSome.2 (List.mem_map_of_mem hp))
  have hkey := key_of_lastOf? hq
  have hplace : q.place = p.place := congrArg Prod.snd hkey
  have hmem : q ∈ placed (inForce ps) := by
    refine List.mem_filter.2 ⟨mem_inForce.2 (by rwa [hkey]), ?_⟩
    rw [hplace, hlocation]
    rfl
  obtain ⟨made, hmade, hof⟩ := exists_of_mem_left h hmem
  refine List.mem_map.2 ⟨made, hmade, Prod.ext (hof.name.trans (congrArg Prod.fst hkey)) ?_⟩
  have hsame := hof.place
  rw [hplace, hlocation] at hsame
  exact (Option.some.inj hsame).symm

/-- An operation that lists its parameters in this way and has them arranged follows what is
declared. -/
theorem Lists.follows {d : Document} {decl : Declaration} {op : Operation} (h : Lists d decl op)
    (hrouted : Routed decl op) (harranged : Arranged op) : ∃ ofPath ofOperation,
      decl.item.parameters.mapM d.parameter = .ok ofPath ∧
      decl.object.parameters.mapM d.parameter = .ok ofOperation ∧
        Follows ofPath ofOperation op := by
  obtain ⟨ofPath, ofOperation, declared, all, body, hpath, hoperation, hdeclared, hall, hparameters,
    hcontent⟩ := h
  obtain ⟨plain, hplain, hplainBody⟩ := harranged.parameters
  -- the body at the end is the one that the operation finds
  have hlength : (body.map Body.parameter).toList.length = op.body?.toList.length := by
    have hsome := harranged.content
    rw [hcontent] at hsome
    cases body <;> cases hfound : op.body? <;> simp [hfound] at hsome ⊢
  obtain ⟨rfl, hbody⟩ := List.append_inj' (hparameters.symm.trans hplainBody) hlength
  have hdistinct : (op.parameters.map argumentKey).Nodup := by
    rw [hplainBody, List.map_append]
    refine List.nodup_append.2 ⟨hall.distinct, ?_, fun key hkey other hother heq => ?_⟩
    · cases op.body? with
      | none => exact List.nodup_nil
      | some p => exact List.pairwise_singleton _ _
    · obtain ⟨p, hp, rfl⟩ := List.mem_map.1 hkey
      obtain ⟨q, hq, rfl⟩ := List.mem_map.1 hother
      have hplace := (harranged.body q (Option.mem_toList.1 hq)).place
      exact (hplain p hp).place ((congrArg Prod.snd heq).trans hplace)
  obtain ⟨added, hadded, hplaceholders⟩ := hall.added
  rw [← harranged.parametersIn_body] at hplainBody
  refine ⟨ofPath, ofOperation, hpath, hoperation, hdistinct, harranged.required,
    fun name hname => ?_, ?_, ⟨all, hplainBody⟩, ?_, ⟨declared, added, ?_, hdeclared, ?_⟩,
    fun p hp location hlocation => ?_⟩
  · obtain ⟨p, hp, hlocation, rfl⟩ := harranged.declared name hname
    refine List.count_eq_one_of_mem hdistinct (List.mem_map.2 ⟨p, hp, ?_⟩)
    rw [argumentKey, hlocation]
  · rw [harranged.parametersIn_body]
    cases op.body? with
    | none => exact Nat.zero_le 1
    | some p => exact Nat.le_refl 1
  · rw [harranged.content, harranged.parametersIn_body]
    cases op.body? <;> simp
  · rw [← hadded]
    exact hplainBody
  · rwa [hrouted.1]
  · rw [overriding, ← inForce_append] at hdeclared
    refine List.count_eq_one_of_mem hdistinct ?_
    rw [hplainBody, hadded, List.map_append, List.map_append]
    exact List.mem_append_left _ (List.mem_append_left _ (exists_argument hdeclared hp hlocation))

/-- **The parameters of every operation are those that are declared for it.**  An OpenAPI definition
has one operation for each that its document declares, and the parameters of each follow what is
declared for its path and for itself, references followed. -/
theorem follows_of_normalize {document : Json} {kind : Option SchemaKind} {api : Definition}
    (h : normalize document kind = .ok api) (hkind : api.kind = .openApi) :
    ∃ d, Document.ofJson document = .ok d ∧
      List.Forall₂ (fun decl op => Routed decl op ∧ ∃ ofPath ofOperation,
        decl.item.parameters.mapM d.parameter = .ok ofPath ∧
        decl.object.parameters.mapM d.parameter = .ok ofOperation ∧ Follows ofPath ofOperation op)
        d.declarations api.operations := by
  obtain ⟨d, hd, hforall, -⟩ :=
    forall₂_of_normalize buildOperation_lists (fun _ _ _ _ h => h) h hkind
  refine ⟨d, hd, forall₂_mono hforall fun decl _ op hop hlists => ⟨hlists.1, ?_⟩⟩
  exact hlists.2.follows hlists.1 (arranged_of_normalize h hkind op hop)

/-! ## A document -/

/-- A document whose operation declares the page again that its path declares, and one placeholder
of two. -/
def reviewsDocument : Json := .object [
  ("openapi", .string "3.0.3"),
  ("paths", .object [("/movies/\x7bid\x7d/reviews/\x7breview\x7d", .object [
    ("parameters", .array [
      .object [("in", .string "query"), ("name", .string "page")],
      .object [("in", .string "path"), ("name", .string "id")]]),
    ("post", .object [
      ("operationId", .string "addReview"),
      ("parameters", .array [
        .object [("in", .string "header"), ("name", .string "X-Trace")],
        .object [("in", .string "query"), ("name", .string "page"), ("required", .bool true)]]),
      ("requestBody", .object [("content", .object [("text/plain", .object [])])])])])])]

/-- The definition of the document. -/
def reviewsApi : Definition :=
  match normalize reviewsDocument none with
  | .ok api => api
  | .error _ => ⟨.openApi, "", "", [], [], .empty, none⟩

theorem normalize_reviews : normalize reviewsDocument none = .ok reviewsApi := by
  obtain ⟨api, hapi⟩ := exists_eq_ok (m := normalize reviewsDocument none) (by decide +kernel)
  rw [reviewsApi, hapi]

theorem kind_reviews : reviewsApi.kind = .openApi := kind_eq_openApi normalize_reviews rfl

/-- The page is required, as the operation says, and comes first, where the path declares it. -/
theorem follows_reviews :
    reviewsApi.operations.map (fun op => op.parameters.map fun p => (argumentKey p, p.required))
      = [[(("page", .query), true), (("id", .path), true), (("X-Trace", .header), false),
          (("review", .path), true), (("body", .body), false)]] ∧
    ∃ d, Document.ofJson reviewsDocument = .ok d ∧
      List.Forall₂ (fun decl op => Routed decl op ∧ ∃ ofPath ofOperation,
        decl.item.parameters.mapM d.parameter = .ok ofPath ∧
        decl.object.parameters.mapM d.parameter = .ok ofOperation ∧ Follows ofPath ofOperation op)
        d.declarations reviewsApi.operations :=
  ⟨by decide +kernel, follows_of_normalize normalize_reviews kind_reviews⟩

end TypedClient.OpenApi
