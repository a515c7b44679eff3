import TypedClient.Proofs.Json.Decoding
import TypedClient.Proofs.OpenApi.Declarations

/-!
# The routes of a document

An operation is declared by a path and, within what is said about the path, by the field of a
method.

* `declaredRoutes` lists the paths and methods of a document as it is written;
* `routes_of_ofJson` says that what is read declares just these;
* `Precedes` is the order of operations, in which the routes of a document stand;
* `operations_of_normalize` says that the operations of a definition are those that the document
  declares, in order and with ids under which they and their routes are found.
-/

set_option autoImplicit false

namespace TypedClient.OpenApi

open TypedClient.Api

/-! ## What a document declares -/

/-- The field of a path that declares the operation of a method. -/
def methodField (m : Method) : String := Text.lowerAscii m.text

/-- The fields of what is said about a path. -/
def pathItemFields : List String := Method.all.map methodField ++ ["parameters"]

/-- Whether what is written about a path has an operation for the method.  An operation that is null
is none. -/
def declaresMethod (item : Json) (m : Method) : Bool :=
  (item.fieldOf? pathItemFields (methodField m)).any (!·.isNull)

/-- The paths and methods that a document declares, path by path.  Of several members of one name
the last counts. -/
def declaredRoutes (document : Json) : List (String × Method) :=
  match document.get? "paths" with
  | some (.object members) => (Dict.ofList members).flatMap fun entry =>
      (Method.all.filter (declaresMethod entry.2)).map fun m => (entry.1, m)
  | _ => []

/-! ## Reading -/

theorem map_filterMap_of_forall₂ {α β : Type} {p : α → Bool} {xs : List α}
    {found : List (Option (α × β))}
    (h : List.Forall₂ (fun x o => (if p x then some x else none) = o.map Prod.fst) xs found) :
    (found.filterMap id).map Prod.fst = xs.filter p := by
  have hmap := List.forall₂_map_left_iff.2 (List.forall₂_map_right_iff.2 h)
  rw [List.forall₂_eq_eq_eq] at hmap
  calc (found.filterMap id).map Prod.fst
      = (found.map (Option.map Prod.fst)).filterMap id := by
        rw [List.map_filterMap, List.filterMap_map]
        rfl
    _ = xs.filterMap fun x => if p x then some x else none := by
        rw [← hmap, List.filterMap_map]
        rfl
    _ = xs.filter p := congrFun List.filterMap_eq_filter xs

/-- The operations that are read of a path are those that are written, in the order of the
methods. -/
theorem PathItem.yields_methods (value : Json) : Yields (PathItem.decode value) fun item =>
    item.operations.map Prod.fst = Method.all.filter (declaresMethod value) := by
  rw [PathItem.decode]
  refine Yields.bind (yields_find? _ _ _ _) fun record hrecord => ?_
  refine (Yields.mapM_forall₂ (R := fun m (found : Option (Method × OperationObject)) =>
    (if declaresMethod value m then some m else none) = found.map Prod.fst) fun m hm => ?_).bind
    fun found hfound => ?_
  · refine (record.yields_isSome (methodField m) _).bind fun op hop => yields_pure ?_
    have hfield := hrecord (methodField m) (List.mem_append_left _ (List.mem_map_of_mem hm))
    rw [hfield] at hop
    change op.isSome = declaresMethod value m at hop
    rw [← hop]
    cases op <;> rfl
  exact (yields_true _).bind fun parameters _ => yields_pure (map_filterMap_of_forall₂ hfound)

/-- The routes that paths declare. -/
def routesOf (paths : Dict PathItem) : List (String × Method) :=
  paths.flatMap fun entry => entry.2.operations.map fun operation => (entry.1, operation.1)

/-- The routes that are read of paths are those that are written. -/
theorem yields_routesOf (value : Json) : Yields (value.dict PathItem.decode) fun paths =>
    paths.Ordered ∧ ∃ members, value = .object members ∧
      (Dict.ofList members).flatMap (fun entry =>
        (Method.all.filter (declaresMethod entry.2)).map fun m => (entry.1, m)) =
          routesOf paths := by
  refine (yields_entries PathItem.decode value).mono fun paths hpaths => ?_
  obtain ⟨members, hvalue, hentries⟩ := hpaths
  refine ⟨?_, members, hvalue, ?_⟩
  · have hkeys :=
      List.forall₂_map_left_iff.2 (List.forall₂_map_right_iff.2 (hentries.imp fun _ _ h => h.1))
    rw [List.forall₂_eq_eq_eq] at hkeys
    rw [Dict.Ordered, ← hkeys]
    exact Dict.ordered_ofList members
  · rw [routesOf, ← List.forall₂_eq_eq_eq]
    refine List.rel_flatMap hentries fun entry other halike => ?_
    rw [List.forall₂_eq_eq_eq, ← PathItem.yields_methods entry.2 other.2 halike.2, halike.1,
      List.map_map]
    rfl

/-- The versions of a document do not matter to its paths. -/
theorem get?_withVersion_paths (value : Json) {key : String} (h : "paths" ≠ key) :
    (withVersion value key).get? "paths" = value.get? "paths" := by
  rw [withVersion.eq_def]
  split
  · exact Dict.get?_insert_of_ne _ _ h
  · rfl

theorem exists_withVersion (members : List (String × Json)) (key : String) :
    ∃ changed, withVersion (.object members) key = .object changed := by
  rw [withVersion.eq_def]
  split
  · exact ⟨_, rfl⟩
  · exact ⟨members, rfl⟩

theorem Document.yields_routesOf (members : List (String × Json)) :
    Yields (Document.decode (.object members)) fun d =>
      d.paths.Ordered ∧ routesOf d.paths = declaredRoutes (.object members) := by
  rw [Document.decode]
  refine Yields.bind (yields_find? _ _ _ _) fun record hrecord => ?_
  iterate 3 refine (yields_true _).bind fun _ _ => ?_
  refine Yields.bind
    (P := fun paths => paths.Ordered ∧ routesOf paths = declaredRoutes (.object members)) ?_
    fun paths hpaths => ?_
  · have hfield : _ = Json.get? (.object members) "paths" := hrecord "paths" (by decide)
    rw [Record.defaulted]
    split
    · rename_i part hpart
      rw [hpart, Option.map_some] at hfield
      refine (OpenApi.yields_routesOf part.1).mono fun paths hpaths => ?_
      obtain ⟨hordered, items, hitems, hroutes⟩ := hpaths
      rw [hitems] at hfield
      rw [declaredRoutes, ← hfield]
      exact ⟨hordered, hroutes.symm⟩
    · rename_i hnone
      rw [hnone, Option.map_none] at hfield
      rw [declaredRoutes, ← hfield]
      exact yields_ok ⟨.nil, rfl⟩
  iterate 10 refine (yields_true _).bind fun _ _ => ?_
  exact yields_pure hpaths

/-- **A document that has been read declares the routes that are written in it.** -/
theorem routes_of_ofJson {document : Json} {d : Document} (h : Document.ofJson document = .ok d) :
    d.paths.Ordered ∧ routesOf d.paths = declaredRoutes document := by
  have hread : Yields (Document.ofJson document) fun d =>
      d.paths.Ordered ∧ routesOf d.paths = declaredRoutes document := by
    rw [Document.ofJson]
    refine (yields_self _).bind fun version hversion => ?_
    split
    · rename_i found hfound
      cases document with
      | object members =>
        obtain ⟨once, honce⟩ := exists_withVersion members "openapi"
        obtain ⟨twice, htwice⟩ := exists_withVersion once "swagger"
        have hpaths : Json.get? (.object twice) "paths" = Json.get? (.object members) "paths" := by
          rw [← htwice, get?_withVersion_paths _ (by decide), ← honce,
            get?_withVersion_paths _ (by decide)]
        rw [honce, htwice] at hfound
        have hroutes := Document.yields_routesOf twice found hfound
        rw [declaredRoutes, hpaths, ← declaredRoutes] at hroutes
        exact yields_pure hroutes
      | _ => cases hversion
    · exact yields_error _
  exact hread d h

/-! ## Operations -/

/-- One operation comes before another: its path does or, of one path, its method. -/
def Precedes (op other : Operation) : Prop :=
  op.path < other.path ∨
    op.path = other.path ∧ Method.all.idxOf op.method < Method.all.idxOf other.method

/-- An operation is found by its id if no other has it. -/
theorem operation?_of_mem {api : Definition} (h : (api.operations.map Operation.id).Nodup)
    {op : Operation} (hop : op ∈ api.operations) : api.operation? op.id = some op := by
  have hsome : (api.operation? op.id).isSome = true :=
    List.find?_isSome.2 ⟨op, hop, beq_self_eq_true op.id⟩
  obtain ⟨found, hfound⟩ := Option.isSome_iff_exists.1 hsome
  have hid : found.id = op.id := by simpa using List.find?_some hfound
  rw [hfound, List.inj_on_of_nodup_map h (List.mem_of_find?_eq_some hfound) hop hid]

theorem map_route_of_forall₂ {d : Document} {operations : List Operation}
    (h : List.Forall₂ Routed d.declarations operations) :
    operations.map (fun op => (op.path, op.method)) = routesOf d.paths := by
  have hmap : d.declarations.map (fun decl => (decl.path, decl.method)) = routesOf d.paths := by
    rw [Document.declarations, List.map_flatMap, routesOf]
    simp only [PathItem.declarations, List.map_map]
    rfl
  have hroutes : List.Forall₂ (fun decl op => (decl.path, decl.method) = (op.path, op.method))
      d.declarations operations := h.imp fun decl op hop => by rw [hop.1, hop.2]
  have heq := List.forall₂_map_left_iff.2 (List.forall₂_map_right_iff.2 hroutes)
  rw [List.forall₂_eq_eq_eq] at heq
  rw [← heq, hmap]

/-- The routes that a document declares stand in order. -/
theorem pairwise_declaredRoutes (document : Json) :
    (declaredRoutes document).Pairwise fun route other =>
    route.1 < other.1 ∨
      route.1 = other.1 ∧ Method.all.idxOf route.2 < Method.all.idxOf other.2 := by
  rw [declaredRoutes]
  split
  · rename_i members _
    refine List.pairwise_flatMap.2 ⟨fun entry _ => ?_, ?_⟩
    · have hall : Method.all.Pairwise fun m other =>
          Method.all.idxOf m < Method.all.idxOf other := by
        decide
      exact List.pairwise_map.2 ((hall.filter _).imp fun h => .inr ⟨rfl, h⟩)
    · refine (List.pairwise_map.1 (Dict.ordered_ofList members)).imp fun {entry other} hlt => ?_
      intro route hroute route' hroute'
      obtain ⟨m, -, rfl⟩ := List.mem_map.1 hroute
      obtain ⟨m', -, rfl⟩ := List.mem_map.1 hroute'
      exact .inl hlt
  · exact .nil

/-- Every operation has one route, under its id. -/
theorem routes_perm {api : Definition} (h : (api.operations.map Operation.id).Nodup) :
    api.routes.Perm (api.operations.map fun op => (op.id, ⟨op.path, op.method⟩)) := by
  refine Dict.perm_ofList ?_
  rwa [List.map_map]

/-- **No operation is lost or shadowed.**  The operations of an OpenAPI definition are those that
its document declares, one for each path and method, in the order of the paths and of the methods.
Their ids are distinct, so that each is found by its id, and each has one route. -/
theorem operations_of_normalize {document : Json} {kind : Option SchemaKind} {api : Definition}
    (h : normalize document kind = .ok api) (hkind : api.kind = .openApi) :
    api.operations.map (fun op => (op.path, op.method)) = declaredRoutes document ∧
    api.operations.Pairwise Precedes ∧
    (api.operations.map Operation.id).Nodup ∧
    (∀ op ∈ api.operations, api.operation? op.id = some op) ∧
    api.routes.Perm (api.operations.map fun op => (op.id, ⟨op.path, op.method⟩)) := by
  obtain ⟨d, hd, hforall, hnodup⟩ := forall₂_of_normalize (R := fun _ _ _ => True)
    (fun _ _ _ => keeps_true _) (fun _ _ _ _ h => h) h hkind
  have hroutes : api.operations.map (fun op => (op.path, op.method)) = declaredRoutes document := by
    rw [map_route_of_forall₂ (hforall.imp fun _ _ h => h.1), (routes_of_ofJson hd).2]
  refine ⟨hroutes, ?_, hnodup, fun op hop => operation?_of_mem hnodup hop, routes_perm hnodup⟩
  have hordered := pairwise_declaredRoutes document
  rw [← hroutes] at hordered
  exact (List.pairwise_map.1 hordered).imp fun h => h

/-- A document that writes paths and methods in another order than operations are taken up in. -/
def shelfDocument : Json := .object [
  ("openapi", .string "3.0.3"),
  ("paths", .object [
    ("/shelves", .object [
      ("post", .object [("operationId", .string "addShelf")]),
      ("get", .object [("operationId", .string "listShelves")])]),
    ("/books", .object [
      ("get", .null),
      ("options", .object [("operationId", .string "describeBooks")]),
      ("delete", .object [("operationId", .string "clearBooks")])])])]

/-- The definition of the document. -/
def shelfApi : Definition :=
  match normalize shelfDocument none with
  | .ok api => api
  | .error _ => ⟨.openApi, "", "", [], [], .empty, none⟩

theorem normalize_shelf : normalize shelfDocument none = .ok shelfApi := by
  obtain ⟨api, hapi⟩ := exists_eq_ok (m := normalize shelfDocument none) (by decide +kernel)
  rw [shelfApi, hapi]

theorem kind_shelf : shelfApi.kind = .openApi := kind_eq_openApi normalize_shelf rfl

theorem operations_of_shelf :
    shelfApi.operations.map (fun op => (op.path, op.method))
      = [("/books", .delete), ("/books", .options), ("/shelves", .get), ("/shelves", .post)] ∧
    shelfApi.operations.Pairwise Precedes ∧
    (∀ op ∈ shelfApi.operations, shelfApi.operation? op.id = some op) ∧
    shelfApi.routes.Perm (shelfApi.operations.map fun op => (op.id, ⟨op.path, op.method⟩)) := by
  obtain ⟨hroutes, hordered, -, hfound, hperm⟩ := operations_of_normalize normalize_shelf kind_shelf
  refine ⟨?_, hordered, hfound, hperm⟩
  rw [hroutes]
  decide +kernel

end TypedClient.OpenApi
