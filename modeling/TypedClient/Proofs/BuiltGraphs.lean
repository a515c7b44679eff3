import TypedClient.Document
import TypedClient.Proofs.Declaration.Building
import TypedClient.Proofs.Declaration.Descent
import TypedClient.Proofs.GraphQl.Building
import TypedClient.Proofs.OpenApi.OperationNodes
import TypedClient.Proofs.Types.Unbounded

/-!
# All graphs that are built are in order

Three readers build type graphs: that of OpenAPI documents, that of GraphQL schemas and that of
declarations.  Each of them reserves nodes first and gives them their shape later, and whatever it
reads, the graph is in order in the end.

* `InOrder` says what that means, and that the walks which descend to the next names end;
* `inOrder_of_built` says it of every graph that is built.

One walk is an exception: the expression of a type in the style that widens unions.  It looks behind
names, so it may go round in circles; `InOrder.expression` says when it does, and
`not_forall_expression_linked` shows a document where it does.
-/

set_option autoImplicit false

namespace TypedClient

open Relation TypedClient.Api TypedClient.Declaration TypedClient.Types

/-- The graph is in order, and the walks through it end. -/
structure InOrder (g : TypeGraph) : Prop where
  /-- Every id in a node or in the index of names is that of a node. -/
  closed : g.Closed
  /-- The index holds exactly the named nodes, each under its own name. -/
  named : ∀ name id, (name, id) ∈ g.names ↔ id < g.size ∧ g.nameOf id = some name
  /-- No name occurs twice in the index. -/
  ordered : Dict.Ordered g.names
  /-- Anonymous nodes refer to earlier nodes only. -/
  descending : ∀ id < g.size, g.nameOf id = none → ∀ child ∈ (g.kind id).references, child < id
  /-- Every cycle passes through a named node. -/
  acyclic : g.Acyclic
  /-- Every node has a description. -/
  description : ∀ id < g.size, g.describe? id = some (g.describe id)
  /-- Comparisons with the nodes of closed graphs end. -/
  comparison : ∀ h : TypeGraph, h.Closed → ∀ a < g.size, ∀ b < h.size,
    equivalent? g a h b = some (equivalent g a h b)
  /-- A node has an expression unless unions are widened and a node that it is made of is made of
  itself. -/
  expression : ∀ (style : Style), ∀ id < g.size, (style.expr? g id).isSome ↔
    (style.widened = true → ∀ part, ReflTransGen (MadeOf g style) id part →
      ¬TransGen (MadeOf g style) part part)

theorem inOrder_of_grown {g : TypeGraph} (hg : g.Grown) : InOrder g where
  closed := hg.closed
  named := fun name id => by
    rw [← hg.indexed]
    exact ⟨hg.lookup_of_mem, Dict.mem_of_get?⟩
  ordered := hg.ordered
  descending := hg.descending
  acyclic := hg.acyclic
  description := fun _ hid => TypeGraph.describe?_eq hg.references hg.acyclic hid
  comparison := fun _ hh _ ha _ hb => equivalent?_eq hg.references hh.1 hg.acyclic ha hb
  expression := fun style id hid => by
    cases hwidened : style.widened with
    | true => exact (isSome_expr?_iff hg.toSound).trans ⟨fun h _ => h, fun h => h rfl⟩
    | false =>
      refine iff_of_true (isSome_expr?_of_native ⟨hg.references, hg.acyclic⟩ hwidened hid) ?_
      exact fun h => absurd h Bool.false_ne_true

theorem grown_of_normalize {document : Json} {kind : Option SchemaKind} {api : Definition}
    (h : normalize document kind = .ok api) :
    api.types.Grown ∧ ∀ op ∈ api.operations, ∀ id ∈ op.types, id < api.types.size := by
  exact OpenApi.yields_normalize (fun d _ api hapi => OpenApi.grown_of_document hapi)
    (fun schema _ api hapi => GraphQl.grown_of_introspection hapi) api h

/-- **Every graph that is built is in order**, and the operations of a definition refer to nodes of
its graph. -/
theorem inOrder_of_built (document : Json) (kind : Option SchemaKind) (api : Definition)
    (text : String) (g : TypeGraph) :
    (normalize document kind = .ok api → InOrder api.types ∧
      ∀ op ∈ api.operations, (∀ p ∈ op.parameters, p.type < api.types.size) ∧
        ∀ response ∈ op.responses, ∀ media ∈ response.content, ∀ id, media.type = some id →
          id < api.types.size) ∧
      (parseDeclarations text = .ok g → InOrder g) := by
  refine ⟨fun h => ?_, fun h => inOrder_of_grown (grown_of_parseDeclarations h)⟩
  obtain ⟨hgrown, hlt⟩ := grown_of_normalize h
  refine ⟨inOrder_of_grown hgrown, fun op hop => ?_⟩
  obtain ⟨hparameters, hresponses⟩ := Operation.forall_mem_types.1 (hlt op hop)
  refine ⟨hparameters, fun response hresponse media hmedia id hid => ?_⟩
  exact hresponses response hresponse id (List.mem_filterMap.2 ⟨media, hmedia, hid⟩)

/-- Lists of such lists, declared twice. -/
def nestedText : String := "type Nested = Nested[]; type Nested = Nested[];"

theorem inOrder_of_built_movies :
    (normalize OpenApi.moviesDocument none = .ok OpenApi.moviesApi ∧
      InOrder OpenApi.moviesApi.types ∧
      ∀ p ∈ OpenApi.updateMovie.parameters, p.type < OpenApi.moviesApi.types.size) ∧
      ∃ g, parseDeclarations nestedText = .ok g ∧ InOrder g := by
  obtain ⟨g, hg⟩ := exists_eq_ok (m := parseDeclarations nestedText) (by decide +kernel)
  have hbuilt := inOrder_of_built OpenApi.moviesDocument none OpenApi.moviesApi nestedText g
  obtain ⟨hinOrder, hoperations⟩ := hbuilt.1 OpenApi.normalize_movies
  exact ⟨⟨OpenApi.normalize_movies, hinOrder, (hoperations _ OpenApi.mem_movies).1⟩, g, hg,
    hbuilt.2 hg⟩

/-- A document of a linked list: the node that follows may be null. -/
def linkedDocument : Json := .object [
  ("components", .object [("schemas", .object [("Node", .object [
    ("properties", .object [("next", .object [
      ("$ref", .string "#/components/schemas/Node"), ("nullable", .bool true)])]),
    ("type", .string "object")])])]),
  ("openapi", .string "3.0.3"),
  ("paths", .object [])]

/-- The definition of the document. -/
def linkedApi : Definition :=
  match normalize linkedDocument none with
  | .ok api => api
  | .error _ => ⟨.openApi, "", "", [], [], .empty, none⟩

theorem normalize_linked : normalize linkedDocument none = .ok linkedApi := by
  obtain ⟨api, hapi⟩ := exists_eq_ok (m := normalize linkedDocument none) (by decide +kernel)
  rw [linkedApi, hapi]

/-- The field of the linked list and null are a union, which is written with the fields of the
linked list if it is widened. -/
theorem madeOf_linked : MadeOf linkedApi.types ⟨true, true⟩ 2 2 :=
  ⟨by decide +kernel, by decide +kernel⟩

/-- **Not every expression ends**: that of the field of a linked list does not if unions are
widened. -/
theorem not_forall_expression_linked :
    ¬∀ document kind api, normalize document kind = .ok api →
      ∀ (style : Style), ∀ id < api.types.size, (style.expr? api.types id).isSome := by
  intro h
  have hsome := h linkedDocument none linkedApi normalize_linked ⟨true, true⟩ 2 (by decide +kernel)
  obtain ⟨e, he⟩ := Option.isSome_iff_exists.1 hsome
  exact not_transGen_of_acc (acc_of_expr? he) (.single madeOf_linked)

end TypedClient
