import TypedClient.Proofs.Lists
import TypedClient.Proofs.Naming.OperationName
import TypedClient.Proofs.OpenApi.Operations

/-!
# Operations and where they are declared

A document declares operations path by path and, within a path, method by method.

* `Document.declarations` lists what is declared;
* `forall₂_of_normalize` says that the operations of a definition are built of the declarations, one
  of each and in their order, and that naming them gives distinct ids.
-/

set_option autoImplicit false

namespace TypedClient.OpenApi

open TypedClient.Api TypedClient.Naming

/-- An operation as a document declares it. -/
structure Declaration where
  /-- The path. -/
  path : String
  /-- What is said about the path. -/
  item : PathItem
  /-- The method. -/
  method : Method
  /-- What is said about the operation. -/
  object : OperationObject

/-- The operations that are declared for a path. -/
def PathItem.declarations (path : String) (item : PathItem) : List Declaration :=
  item.operations.map fun operation => ⟨path, item, operation.1, operation.2⟩

/-- The operations that a document declares, in order. -/
def Document.declarations (d : Document) : List Declaration :=
  d.paths.flatMap fun entry => entry.2.declarations entry.1

variable {d : Document} {version : Version} {R : Declaration → Operation → Prop}

/-- The operation has the path and the method that are declared. -/
def Routed (decl : Declaration) (op : Operation) : Prop :=
  op.path = decl.path ∧ op.method = decl.method

theorem buildOperation_routed (d : Document) (version : Version) (decl : Declaration) :
    Keeps (fun _ => True) (Routed decl)
      (buildOperation d version decl.path decl.item decl.method decl.object) := by
  rw [buildOperation]
  iterate 3 refine (keeps_true _).bind fun _ _ => ?_
  -- whether there is a request body and whether there are form fields
  split
  all_goals split
  all_goals iterate 3 refine (keeps_true _).bind fun _ _ => ?_
  all_goals exact keeps_pure ⟨rfl, rfl⟩

/-- Operations are built of the declarations, one of each. -/
theorem buildOperations_forall₂
    (h : ∀ decl, Keeps (fun _ => True) (R decl)
      (buildOperation d version decl.path decl.item decl.method decl.object)) :
    Keeps (fun _ => True) (List.Forall₂ R d.declarations) (buildOperations d version) := by
  rw [buildOperations]
  refine (keeps_true _).bind fun _ _ => ?_
  have hpaths : Keeps (fun _ => True)
      (List.Forall₂ (fun entry ops => List.Forall₂ R (entry.2.declarations entry.1) ops) d.paths)
      (d.paths.mapM fun entry => entry.2.operations.mapM fun operation =>
        buildOperation d version entry.1 entry.2 operation.1 operation.2) := by
    refine Keeps.mapM_forall₂ fun entry _ => ?_
    refine (Keeps.mapM_forall₂ fun operation _ =>
      h ⟨entry.1, entry.2, operation.1, operation.2⟩).mono fun ops hops => ?_
    exact List.forall₂_map_left_iff.2 hops
  refine hpaths.bind fun ofPaths hofPaths => keeps_pure ?_
  exact List.rel_flatten (List.forall₂_map_left_iff.2 hofPaths)

theorem forall₂_zipWith_id {operations : List Operation} {ids : List String}
    (hlength : operations.length = ids.length) :
    List.Forall₂ (fun unnamed op => op = { unnamed with id := op.id }) operations
        (operations.zipWith (fun op id => { op with id }) ids) ∧
      (operations.zipWith (fun op id => { op with id }) ids).map Operation.id = ids := by
  induction operations generalizing ids with
  | nil =>
    rw [List.eq_nil_of_length_eq_zero hlength.symm]
    exact ⟨.nil, rfl⟩
  | cons op operations ih =>
    obtain ⟨id, ids, rfl⟩ := List.exists_cons_of_length_eq_add_one hlength.symm
    obtain ⟨hrest, hids⟩ := ih (Nat.succ.inj hlength)
    exact ⟨.cons rfl hrest, congrArg (id :: ·) hids⟩

/-- Naming gives every operation an id of its own and changes nothing else. -/
theorem forall₂_nameOperations {operations named : List Operation}
    (h : nameOperations operations = .ok named) :
    List.Forall₂ (fun unnamed op => op = { unnamed with id := op.id }) operations named ∧
      (named.map Operation.id).Nodup := by
  rw [nameOperations] at h
  split at h
  · rename_i ids hids
    obtain ⟨heq, hnodup⟩ := resolveNames_eq_ok hids
    have hlength : operations.length = ids.length := by
      rw [heq, List.length_map, List.length_map]
    obtain ⟨hforall, hmap⟩ := forall₂_zipWith_id hlength
    cases h
    exact ⟨hforall, by rwa [hmap]⟩
  · cases h

/-- What holds of an operation that has been built, whatever its id, holds of the operations of the
definition, one for each one that the document declares. -/
theorem forall₂_of_toDefinition {R : Version → Declaration → Operation → Prop}
    (hbuild : ∀ version decl, Keeps (fun _ => True) (R version decl)
      (buildOperation d version decl.path decl.item decl.method decl.object))
    (hid : ∀ version decl op id, R version decl op → R version decl { op with id })
    {api : Definition} (h : d.toDefinition = .ok api) :
    ∃ version, d.version = .ok version ∧
      List.Forall₂ (fun decl op => Routed decl op ∧ R version decl op) d.declarations
        api.operations ∧
      (api.operations.map Operation.id).Nodup := by
  obtain ⟨version, operations, built, hversion, hbuilt, hnamed, -⟩ := yields_toDefinition d api h
  obtain ⟨-, hbuilt⟩ := buildOperations_forall₂
    (fun decl => (buildOperation_routed d version decl).and (hbuild version decl))
    Building.empty trivial _ hbuilt
  obtain ⟨hnames, hnodup⟩ := forall₂_nameOperations hnamed
  refine ⟨version, hversion, forall₂_trans hbuilt hnames fun decl unnamed op hR hop => ?_, hnodup⟩
  rw [hop]
  exact ⟨hR.1, hid version decl unnamed op.id hR.2⟩

/-- **A definition has one operation for each one that the document declares**, in the same order,
and ids that are distinct.  What holds of an operation that has been built, whatever its id, holds
of it. -/
theorem forall₂_of_normalize {R : Document → Declaration → Operation → Prop}
    (hbuild : ∀ d version decl, Keeps (fun _ => True) (R d decl)
      (buildOperation d version decl.path decl.item decl.method decl.object))
    (hid : ∀ d decl op id, R d decl op → R d decl { op with id }) {document : Json}
    {kind : Option SchemaKind} {api : Definition} (h : normalize document kind = .ok api)
    (hkind : api.kind = .openApi) :
    ∃ d, Document.ofJson document = .ok d ∧
      List.Forall₂ (fun decl op => Routed decl op ∧ R d decl op) d.declarations api.operations ∧
      (api.operations.map Operation.id).Nodup := by
  obtain ⟨d, hd, hapi⟩ := exists_document_of_normalize h hkind
  obtain ⟨-, -, hforall, hnodup⟩ := forall₂_of_toDefinition (hbuild d) (fun _ => hid d) hapi
  exact ⟨d, hd, hforall, hnodup⟩

end TypedClient.OpenApi
