import TypedClient.Proofs.Declaration.Recovery
import TypedClient.Proofs.Emit.Declarations

/-!
# Files of declarations

A file of declarations is read, and what is read covers the types it was made from
(`parseDeclarations_standalone`).  The file declares more than these types: those of operations and,
if there are no operations, the client.  All these names differ, so that no declaration takes the
place of another (`exists_others`).

* `ReadsNode` is a declaration that the text of a named type is read as;
* `exists_nodes` says that there is one for each, however unions are written.
-/

set_option autoImplicit false

namespace TypedClient.Emit

open TypedClient.Api TypedClient.Declaration TypedClient.Types

theorem map_name_eq {α : Type} {name : α → String} {xs : List α} {ts : List Statement}
    (h : List.Forall₂ (fun x t => t.name = name x) xs ts) :
    ts.map Statement.name = xs.map name := by
  induction h with
  | nil => rfl
  | cons hname _ ih => rw [List.map_cons, List.map_cons, hname, ih]

/-! ## Types of the schema -/

/-- The declaration is read from that of the node. -/
structure ReadsNode (known : String → Prop) (g : TypeGraph) (style : Style)
    (entry : String × TypeId) (t : Statement) : Prop where
  /-- It has the name of the node. -/
  name_eq : t.name = entry.1
  /-- It is what is read of the declaration of the node. -/
  readAs : ∃ s, statement? g style entry.2 = some s ∧ s.ReadAs known t

variable {g : TypeGraph} {style : Style} {known : String → Prop}

theorem ReadsNode.of_statement? {entry : String × TypeId} {s t : Statement}
    (hname : g.nameOf entry.2 = some entry.1) (hs : statement? g style entry.2 = some s)
    (ht : s.ReadAs known t) : ReadsNode known g style entry t :=
  ⟨ht.name_eq.trans (Option.some.inj ((type_of_statement? hs).1.symm.trans hname)), s, hs, ht⟩

theorem ReadsNode.wellFormed {entry : String × TypeId} {t : Statement}
    (h : ReadsNode known g style entry t) : t.WellFormed known := by
  obtain ⟨_, -, ht⟩ := h.readAs
  exact ht.wellFormed

theorem ReadsNode.readsAs {entry : String × TypeId} {t : Statement}
    (h : ReadsNode known g style entry t) :
    ∃ lines, declaration? g style entry.2 = some lines ∧ ReadsAs lines [t] := by
  obtain ⟨s, hs, ht⟩ := h.readAs
  obtain ⟨lines, hlines⟩ : ∃ lines, declaration? g style entry.2 = some lines := by
    rw [declaration?, hs]
    exact ⟨_, rfl⟩
  have hlexes := lexes_declaration hs ht.legible hlines
  rw [ht.tokens] at hlexes
  exact ⟨lines, hlines, readsAs_statement hlexes ht.reads⟩

/-- The declarations of the types of the schema. -/
theorem readsAs_types {names : List (String × TypeId)} {nodes : List Statement}
    (h : List.Forall₂ (ReadsNode known g style) names nodes) :
    ReadsAs ((names.filterMap fun (_, id) => declaration? g style id).flatMap ("" :: ·)) nodes := by
  induction h with
  | nil => exact readsAs_nil
  | @cons entry t names nodes hfirst _ ih =>
    obtain ⟨lines, hlines, hread⟩ := hfirst.readsAs
    have hcons : (entry :: names).filterMap (fun (_, id) => declaration? g style id)
        = lines :: names.filterMap fun (_, id) => declaration? g style id :=
      List.filterMap_cons_some hlines
    rw [hcons]
    exact (readsAs_blank.append hread).append ih

theorem nameOf_of_mem_names (hg : g.Grown) {entry : String × TypeId} (hentry : entry ∈ g.names) :
    g.nameOf entry.2 = some entry.1 :=
  ((hg.indexed entry.1 entry.2).1 (Dict.get?_of_mem hg.ordered hentry)).2

/-- Every named type has a declaration that is read. -/
theorem exists_nodes (hg : Declarable g) (style : Style) :
    ∃ nodes, List.Forall₂ (ReadsNode (IsNameIn g) g style) g.names nodes := by
  refine exists_forall₂ fun entry hentry => ?_
  have hname := nameOf_of_mem_names hg.grown hentry
  obtain ⟨s, t, hs, ht⟩ := hg.exists_readAs style hname
  exact ⟨t, .of_statement? hname hs ht⟩

/-! ## The whole file -/

variable {api : Definition} {options : Options}

/-- Declarations, each below a blank line. -/
theorem readsAs_below {ss ts : List Statement} (h : List.Forall₂ (Statement.ReadAs known) ss ts) :
    ReadsAs ((ss.map Statement.lines).flatMap ("" :: ·)) ts := by
  induction h with
  | nil => exact readsAs_nil
  | cons hfirst _ ih =>
    exact (readsAs_blank.append (readsAs_statement hfirst.lexes hfirst.reads)).append ih

/-- The declarations of the types of operations. -/
theorem readsAs_operations {s : Surface} (h : s.Readable) : ∃ ts,
    ReadsAs ((s.entries.flatMap fun e => e.types.statements.map Statement.lines).flatMap ("" :: ·))
        ts ∧
      List.Forall₂ (Statement.ReadAs fun _ => True) (s.entries.flatMap fun e => e.types.statements)
        ts := by
  obtain ⟨ts, hts⟩ : ∃ ts, List.Forall₂ (Statement.ReadAs fun _ => True)
      (s.entries.flatMap fun e => e.types.statements) ts := exists_forall₂ fun u hu => by
    obtain ⟨e, he, hmem⟩ := List.mem_flatMap.1 hu
    exact (h.types e he).statements u hmem
  rw [← List.map_flatMap]
  exact ⟨ts, readsAs_below hts, hts⟩

/-- At most the interface of the client is kept of it, and that without members. -/
theorem exists_client {s : Surface} (h : s.Readable) :
    ∃ client, ReadsAs (clientInterface s) client ∧
    client.Sublist [.interface s.clientType []] := by
  refine ⟨_, readsAs_clientInterface h, ?_⟩
  split
  · exact .refl _
  · exact List.nil_sublist _

/-- The interface of options is skipped where it is written. -/
theorem readsAs_options {s : Surface} (h : s.Readable) (flavor : Flavor) : ReadsAs
    (if flavor = .fullNodePlugin then ["" :: optionsInterface s] else []).flatten [] := by
  split
  · rw [List.flatten_singleton]
    exact readsAs_blank.append (readsAs_optionsInterface h)
  · exact readsAs_nil

/-- The code of the module is skipped. -/
theorem readsAs_ambient {s : Surface} (h : s.Readable) (flavor : Flavor) :
    ReadsAs (ambient s flavor) [] := by
  cases flavor with
  | typesOnly => exact readsAs_nil
  | frontend => exact readsAs_ambientFrontend h
  | fullNodePlugin => exact readsAs_ambientPlugin h

/-- **A file of declarations is read as those of the named types and others**, and no name is
declared twice. -/
theorem exists_others (hg : Declarable api.types) (hcodes : ∀ op ∈ api.operations, op.CodesFit)
    (flavor : Flavor) {nodes : List Statement}
    (hnodes : List.Forall₂ (ReadsNode known api.types options.style) api.types.names nodes) :
    ∃ others, parseDeclarations (textOf (standalone (Surface.of api options) flavor))
        = .ok (graphOf (nodes ++ others)) ∧
      (∀ t ∈ others, t.WellFormed fun _ => True) ∧
      ((nodes ++ others).map Statement.name).Nodup := by
  have hreadable := @readable_surface api options hg hcodes
  have hnodup := @nodup_surface api options hg hcodes
  obtain ⟨others, hothers, hothersRead⟩ := readsAs_operations hreadable
  have hnodesRead := readsAs_types hnodes
  have htypes : (Surface.of api options).types
      = api.types.names.filterMap fun (_, id) => declaration? api.types options.style id := rfl
  rw [← htypes] at hnodesRead
  generalize hs : Surface.of api options = s at *
  obtain ⟨client, hclient, hclientType⟩ := exists_client hreadable
  have hheader : ReadsAs [s.header] [] := by
    rw [← hs]
    exact readsAs_headerLine api
  have hdeclared :=
    ((hheader.append (hnodesRead.append hothers)).append readsAs_blank).append hclient
  have hall := ((hdeclared.append (readsAs_options hreadable flavor)).append readsAs_blank).append
    (readsAs_ambient hreadable flavor)
  rw [← List.flatMap_append] at hall
  simp only [List.nil_append, List.append_nil] at hall
  refine ⟨others ++ client, ?_, List.forall_mem_append.2 ⟨fun t ht => ?_, fun t ht => ?_⟩, ?_⟩
  · rw [← List.append_assoc]
    exact parseDeclarations_of_readsAs hall
  · obtain ⟨_, -, hread⟩ := exists_of_mem_right hothersRead ht
    exact hread.wellFormed
  · rw [List.mem_singleton.1 (hclientType.subset ht)]
    exact .interface hreadable.clientType.isTypeName (List.forall_mem_nil _)
  · refine List.Sublist.nodup ?_ hnodup
    have hnodeNames := map_name_eq (forall₂_mono hnodes fun _ _ _ _ h => h.name_eq)
    have hotherNames := map_name_eq (forall₂_mono hothersRead fun _ _ _ _ h => h.name_eq)
    rw [List.map_flatMap] at hotherNames
    rw [List.map_append, List.map_append, hnodeNames, hotherNames, ← List.append_assoc]
    exact (List.Sublist.refl _).append (hclientType.map Statement.name)

/-- The declaration is that of the node, its numbers read anew. -/
def Rewrites (g : TypeGraph) (entry : String × TypeId) (t : Statement) : Prop :=
  ∃ s, statement? g faithful entry.2 = some s ∧ s.reread? = some t

/-- Types that are written as they are, are read as they are, but for their numbers. -/
theorem exists_rewrites (hg : Declarable g) : ∃ nodes, List.Forall₂
    (fun entry t => ReadsNode (fun _ => True) g faithful entry t ∧ Rewrites g entry t) g.names
      nodes := by
  refine exists_forall₂ fun entry hentry => ?_
  have hname := nameOf_of_mem_names hg.grown hentry
  obtain ⟨s, t, hs, hwf, ht⟩ := hg.exists_reread hname
  exact ⟨t, .of_statement? hname hs (.of_reread hwf ht), s, hs, ht⟩

/-- **A file of declarations is read**, and what is read covers the types just if those in use have
forms that the text can tell apart. -/
theorem parseDeclarations_standalone (hg : Declarable api.types) (hstyle : options.style = faithful)
    (hcodes : ∀ op ∈ api.operations, op.CodesFit) (flavor : Flavor) :
    ∃ h, parseDeclarations (textOf (standalone (Surface.of api options) flavor)) = .ok h ∧
      (api.types.covers h = true ↔ ∀ id, InUse api.types id → Canonical api.types id) := by
  obtain ⟨nodes, hnodes⟩ := exists_rewrites hg
  have hread := forall₂_mono hnodes fun _ _ _ _ h => h.1
  obtain ⟨others, hparse, hothers, hnodup⟩ := exists_others hg hcodes flavor (hstyle ▸ hread)
  refine ⟨_, hparse,
    covers_graphOf_iff hg (List.forall_mem_append.2 ⟨fun t ht => ?_, hothers⟩) hnodup
    fun id hid => ?_⟩
  · obtain ⟨_, -, hnode⟩ := exists_of_mem_right hread ht
    exact hnode.wellFormed
  · obtain ⟨name, hname⟩ := Option.ne_none_iff_exists'.1 hid
    have hentry := Dict.mem_of_get? ((hg.grown.indexed name id).2
      ⟨TypeGraph.lt_of_nameOf hname, hname⟩)
    obtain ⟨t, ht, -, s, hs, hreread⟩ := exists_of_mem_left hnodes hentry
    exact ⟨s, t, List.mem_append_left _ ht, hs, hreread⟩

end TypedClient.Emit
