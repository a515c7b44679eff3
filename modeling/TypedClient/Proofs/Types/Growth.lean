import TypedClient.Types.Graph

/-!
# Graphs that grow

Graphs are built node by node: nodes are added, names are reserved, and reserved nodes get their
shape.  This file says what all of this keeps.

* `TypeGraph.Sound` says that every id belongs to a node and that the index of names is right;
* `TypeGraph.Grown` says that moreover anonymous nodes refer to earlier nodes only, which is so
  because children are made, or at least named, before their parents;
* `TypeGraph.Extends` says that a graph has kept all nodes of another;
* `TypeGraph.Grows` says that it has kept all but those that had a name and no shape yet.
-/

set_option autoImplicit false

namespace TypedClient.Types

/-- The shape offers something to choose from, if it is a choice. -/
def TypeKind.Offers : TypeKind → Prop
  | .enumeration values => values ≠ []
  | .union members => members ≠ []
  | _ => True

/-- An anonymous node of the given shape. -/
structure IsAnonymous (g : TypeGraph) (id : TypeId) (kind : TypeKind) : Prop where
  /-- The node exists. -/
  lt : id < g.size
  /-- It has no name. -/
  nameOf : g.nameOf id = none
  /-- It has the shape. -/
  kind : g.kind id = kind

namespace TypeGraph

/-- Every id is that of a node, and the index finds exactly the named nodes. -/
structure Sound (g : TypeGraph) : Prop where
  /-- Nodes refer to nodes. -/
  references : ∀ id < g.size, ∀ child ∈ (g.kind id).references, child < g.size
  /-- The index leads to the node of a name and to no other. -/
  indexed : ∀ name id, g.lookup name = some id ↔ id < g.size ∧ g.nameOf id = some name
  /-- Each name has one entry in the index. -/
  ordered : Dict.Ordered g.names

/-- Anonymous nodes refer to earlier nodes. -/
structure Grown (g : TypeGraph) : Prop extends g.Sound where
  /-- No anonymous node refers to itself or to a later one. -/
  descending : ∀ id < g.size, g.nameOf id = none → ∀ child ∈ (g.kind id).references, child < id

/-- All nodes of `g` are nodes of `h`. -/
structure Extends (g h : TypeGraph) : Prop where
  /-- There are no fewer nodes. -/
  size_le : g.size ≤ h.size
  /-- The nodes are the same. -/
  node_eq : ∀ id < g.size, h.node id = g.node id

/-- All nodes of `g` are nodes of `h`, but for those that were reserved, which may have got their
shape. -/
structure Grows (g h : TypeGraph) : Prop where
  /-- There are no fewer nodes. -/
  size_le : g.size ≤ h.size
  /-- Names are the same. -/
  nameOf_eq : ∀ id < g.size, h.nameOf id = g.nameOf id
  /-- Shapes are the same, unless there was none. -/
  kind_eq : ∀ id < g.size, g.nameOf id = none ∨ g.kind id ≠ .unknown → h.kind id = g.kind id

variable {g h k : TypeGraph} {id : TypeId} {name : String} {kind : TypeKind}

/-! ## Nodes of a graph that has grown -/

theorem Extends.refl (g : TypeGraph) : g.Extends g := ⟨Nat.le_refl _, fun _ _ => rfl⟩

theorem Extends.trans (hgh : g.Extends h) (hhk : h.Extends k) : g.Extends k := by
  refine ⟨Nat.le_trans hgh.size_le hhk.size_le, fun id hid => ?_⟩
  rw [hhk.node_eq id (Nat.lt_of_lt_of_le hid hgh.size_le), hgh.node_eq id hid]

theorem Extends.lt (hgh : g.Extends h) (hid : id < g.size) : id < h.size :=
  Nat.lt_of_lt_of_le hid hgh.size_le

theorem Extends.kind_eq (hgh : g.Extends h) (hid : id < g.size) : h.kind id = g.kind id := by
  rw [TypeGraph.kind, hgh.node_eq id hid, TypeGraph.kind]

theorem Extends.nameOf_eq (hgh : g.Extends h) (hid : id < g.size) : h.nameOf id = g.nameOf id := by
  rw [nameOf, hgh.node_eq id hid, nameOf]

theorem Grows.refl (g : TypeGraph) : g.Grows g := ⟨Nat.le_refl _, fun _ _ => rfl, fun _ _ _ => rfl⟩

theorem Extends.grows (hgh : g.Extends h) : g.Grows h :=
  ⟨hgh.size_le, fun _ hid => hgh.nameOf_eq hid, fun _ hid _ => hgh.kind_eq hid⟩

theorem Grows.trans (hgh : g.Grows h) (hhk : h.Grows k) : g.Grows k := by
  refine ⟨Nat.le_trans hgh.size_le hhk.size_le, fun id hid => ?_, fun id hid hshape => ?_⟩
  · rw [hhk.nameOf_eq id (Nat.lt_of_lt_of_le hid hgh.size_le), hgh.nameOf_eq id hid]
  · have hkind := hgh.kind_eq id hid hshape
    rw [hhk.kind_eq id (Nat.lt_of_lt_of_le hid hgh.size_le), hkind]
    rwa [hgh.nameOf_eq id hid, hkind]

theorem Grows.lt (hgh : g.Grows h) (hid : id < g.size) : id < h.size :=
  Nat.lt_of_lt_of_le hid hgh.size_le

theorem Grows.isAnonymous (hgh : g.Grows h) (hid : IsAnonymous g id kind) :
    IsAnonymous h id kind := by
  refine ⟨hgh.lt hid.lt, ?_, ?_⟩
  · rw [hgh.nameOf_eq id hid.lt, hid.nameOf]
  · rw [hgh.kind_eq id hid.lt (.inl hid.nameOf), hid.kind]

theorem Sound.lt_of_lookup (hg : g.Sound) (hid : g.lookup name = some id) : id < g.size :=
  ((hg.indexed name id).1 hid).1

theorem Sound.nameOf_of_lookup (hg : g.Sound) (hid : g.lookup name = some id) :
    g.nameOf id = some name := ((hg.indexed name id).1 hid).2

theorem Sound.lookup_of_nameOf (hg : g.Sound) (hid : id < g.size)
    (hname : g.nameOf id = some name) :
    g.lookup name = some id := (hg.indexed name id).2 ⟨hid, hname⟩

theorem Sound.lookup_of_mem (hg : g.Sound) (h : (name, id) ∈ g.names) : g.lookup name = some id :=
  Dict.get?_of_mem hg.ordered h

theorem Sound.closed (hg : g.Sound) : g.Closed :=
  ⟨hg.references, fun _ hentry => hg.lt_of_lookup (hg.lookup_of_mem hentry)⟩

theorem Sound.resolveWithin_lt (hg : g.Sound) (hid : id < g.size) (steps : Nat) :
    g.resolveWithin id steps < g.size := by
  induction steps generalizing id with
  | zero => exact hid
  | succ steps ih =>
    rw [TypeGraph.resolveWithin]
    split
    · rename_i member hkind
      refine ih (hg.references id hid member ?_)
      rw [hkind]
      exact List.mem_cons_self
    · exact hid

theorem Extends.lookup (hgh : g.Extends h) (hg : g.Sound) (hh : h.Sound)
    (hid : g.lookup name = some id) : h.lookup name = some id := by
  have hlt := hg.lt_of_lookup hid
  refine hh.lookup_of_nameOf (hgh.lt hlt) ?_
  rw [hgh.nameOf_eq hlt, hg.nameOf_of_lookup hid]

/-- Beyond the last node there is nothing. -/
theorem node_of_size_le (hid : g.size ≤ id) : g.node id = default := by
  have hsize : g.nodes.size ≤ id := hid
  simp [node, Array.getElem?_eq_none hsize]

theorem kind_of_size_le (hid : g.size ≤ id) : g.kind id = .unknown := by
  rw [TypeGraph.kind, node_of_size_le hid]
  rfl

theorem nameOf_of_size_le (hid : g.size ≤ id) : g.nameOf id = none := by
  rw [nameOf, node_of_size_le hid]
  rfl

theorem lt_of_nameOf (h : g.nameOf id = some name) : id < g.size := by
  refine Nat.lt_of_not_le fun hid => ?_
  rw [nameOf_of_size_le hid] at h
  cases h

theorem lt_of_mem_references {child : TypeId} (h : child ∈ (g.kind id).references) :
    id < g.size := by
  refine Nat.lt_of_not_le fun hid => ?_
  rw [kind_of_size_le hid] at h
  cases h

/-! ## Adding a node -/

theorem extends_add (g : TypeGraph) (kind : TypeKind) : g.Extends (g.add kind) :=
  ⟨by rw [size_add]; exact Nat.le_succ _, fun _ hid => node_add_of_lt hid kind⟩

@[simp] theorem kind_add_self (g : TypeGraph) (kind : TypeKind) :
    (g.add kind).kind g.size = kind := by
  rw [TypeGraph.kind, node_add_self]

@[simp] theorem nameOf_add_self (g : TypeGraph) (kind : TypeKind) :
    (g.add kind).nameOf g.size = none := by
  rw [nameOf, node_add_self]

@[simp] theorem lookup_add (g : TypeGraph) (kind : TypeKind) (name : String) :
    (g.add kind).lookup name = g.lookup name := rfl

/-- A node that was just added. -/
theorem isAnonymous_add (g : TypeGraph) (kind : TypeKind) : IsAnonymous (g.add kind) g.size kind :=
  ⟨by rw [size_add]; exact Nat.lt_succ_self _, nameOf_add_self g kind, kind_add_self g kind⟩

theorem nameOf_add_of_size_le (hid : g.size ≤ id) (kind : TypeKind) :
    (g.add kind).nameOf id = none := by
  rcases Nat.lt_or_eq_of_le hid with hlt | rfl
  · exact nameOf_of_size_le (by rw [size_add]; exact hlt)
  · exact nameOf_add_self g kind

theorem kind_add_of_size_le (hid : g.size ≤ id) (kind : TypeKind) :
    (g.add kind).kind id = kind ∨ (g.add kind).kind id = .unknown := by
  rcases Nat.lt_or_eq_of_le hid with hlt | rfl
  · exact .inr (kind_of_size_le (by rw [size_add]; exact hlt))
  · exact .inl (kind_add_self g kind)

theorem Grown.empty : TypeGraph.empty.Grown where
  references := fun _ hid => absurd hid (Nat.not_lt_zero _)
  indexed := fun _ _ => iff_of_false (fun h => nomatch h) fun h => Nat.not_lt_zero _ h.1
  ordered := List.Pairwise.nil
  descending := fun _ hid => absurd hid (Nat.not_lt_zero _)

theorem Grown.add (hg : g.Grown) (hkind : ∀ child ∈ kind.references, child < g.size) :
    (g.add kind).Grown := by
  have hext := extends_add g kind
  have hcases {id : TypeId} (hid : id < (g.add kind).size) : id < g.size ∨ id = g.size := by
    rw [size_add] at hid
    exact Nat.lt_or_eq_of_le (Nat.le_of_lt_succ hid)
  refine ⟨⟨fun id hid child hchild => ?_, fun name id => ?_, hg.ordered⟩,
    fun id hid hnone child hchild => ?_⟩
  · rcases hcases hid with hid | rfl
    · rw [hext.kind_eq hid] at hchild
      exact hext.lt (hg.references id hid child hchild)
    · rw [kind_add_self] at hchild
      exact hext.lt (hkind child hchild)
  · rw [lookup_add, hg.indexed]
    constructor
    · rintro ⟨hid, hname⟩
      exact ⟨hext.lt hid, by rw [hext.nameOf_eq hid, hname]⟩
    · rintro ⟨hid, hname⟩
      rcases hcases hid with hid | rfl
      · exact ⟨hid, by rwa [hext.nameOf_eq hid] at hname⟩
      · rw [nameOf_add_self] at hname
        cases hname
  · rcases hcases hid with hid | rfl
    · rw [hext.kind_eq hid] at hchild
      rw [hext.nameOf_eq hid] at hnone
      exact hg.descending id hid hnone child hchild
    · rw [kind_add_self] at hchild
      exact hkind child hchild

/-! ## Reserving a name -/

theorem reserve_of_lookup (hid : g.lookup name = some id) : g.reserve name = (g, id) := by
  rw [reserve, hid]

/-- What reserving a new name does. -/
theorem reserve_of_lookup_none (hnone : g.lookup name = none) :
    g.reserve name
      = ({ nodes := g.nodes.push ⟨some name, .unknown, none⟩
           names := Dict.insert g.names name g.size }, g.size) := by
  rw [reserve, hnone]

/-- A new name gets a node behind the others. -/
theorem size_reserve (hnone : g.lookup name = none) : (g.reserve name).1.size = g.size + 1 := by
  rw [reserve_of_lookup_none hnone]
  simp [size]

/-- The node of a new name is unknown, and all others stay. -/
theorem node_reserve (hnone : g.lookup name = none) (id : TypeId) :
    (g.reserve name).1.node id =
      if id = g.size then ⟨some name, .unknown, none⟩ else g.node id := by
  rw [reserve_of_lookup_none hnone]
  by_cases hid : id = g.size
  · simp [hid, node, size]
  · have hid' : id ≠ g.nodes.size := hid
    simp [hid, node, Array.getElem?_push, hid']

/-- Nothing is known of a node that has been reserved, as of one that is not there. -/
theorem kind_reserve (g : TypeGraph) (name : String) (id : TypeId) :
    (g.reserve name).1.kind id = g.kind id := by
  cases hlookup : g.lookup name with
  | some found => rw [reserve_of_lookup hlookup]
  | none =>
    rw [TypeGraph.kind, node_reserve hlookup]
    split
    · rename_i hid
      rw [hid, kind_of_size_le (Nat.le_refl _)]
    · rfl

/-- A node with a name is the one that was reserved, or had its name. -/
theorem nameOf_reserve_eq_some_iff (hnone : g.lookup name = none) {text : String} :
    (g.reserve name).1.nameOf id = some text ↔
      (id = g.size ∧ text = name) ∨ g.nameOf id = some text := by
  rw [nameOf, node_reserve hnone]
  by_cases hid : id = g.size
  · simp [hid, nameOf_of_size_le, eq_comm]
  · simp [hid, nameOf]

/-- A name leads to the node that was reserved for it, or to the one it had. -/
theorem lookup_reserve_eq_some_iff (hnone : g.lookup name = none) {other : String} :
    (g.reserve name).1.lookup other = some id ↔
      (other = name ∧ g.size = id) ∨ (other ≠ name ∧ g.lookup other = some id) := by
  rw [reserve_of_lookup_none hnone]
  exact Dict.get?_insert_eq_some_iff

theorem extends_reserve (g : TypeGraph) (name : String) : g.Extends (g.reserve name).1 := by
  cases hlookup : g.lookup name with
  | some id =>
    rw [reserve_of_lookup hlookup]
    exact .refl g
  | none =>
    refine ⟨by rw [size_reserve hlookup]; exact Nat.le_succ _, fun id hid => ?_⟩
    rw [node_reserve hlookup, if_neg (Nat.ne_of_lt hid)]

theorem lookup_reserve_of_ne (g : TypeGraph) {other : String} (hne : other ≠ name) :
    (g.reserve name).1.lookup other = g.lookup other := by
  cases hlookup : g.lookup name with
  | some id => rw [reserve_of_lookup hlookup]
  | none =>
    rw [reserve_of_lookup_none hlookup]
    exact Dict.get?_insert_of_ne g.names g.size hne

theorem lookup_reserve_of_lookup {other : String} (hid : g.lookup other = some id)
    (name : String) : (g.reserve name).1.lookup other = some id := by
  by_cases hother : other = name
  · rwa [← hother, reserve_of_lookup hid]
  · rwa [lookup_reserve_of_ne g hother]

theorem Grown.reserve (hg : g.Grown) (name : String) : (g.reserve name).1.Grown := by
  cases hlookup : g.lookup name with
  | some id => rwa [reserve_of_lookup hlookup]
  | none =>
    have hext := extends_reserve g name
    refine ⟨⟨fun id _ child hchild => ?_, fun other id => ?_, ?_⟩,
      fun id _ hnone child hchild => ?_⟩
    · rw [kind_reserve] at hchild
      exact hext.lt (hg.references id (lt_of_mem_references hchild) child hchild)
    · rw [lookup_reserve_eq_some_iff hlookup, nameOf_reserve_eq_some_iff hlookup,
        size_reserve hlookup]
      constructor
      · rintro (⟨rfl, rfl⟩ | ⟨-, hid⟩)
        · exact ⟨Nat.lt_succ_self _, .inl ⟨rfl, rfl⟩⟩
        · exact ⟨Nat.lt_succ_of_lt (hg.lt_of_lookup hid), .inr (hg.nameOf_of_lookup hid)⟩
      · rintro ⟨-, ⟨rfl, rfl⟩ | hname⟩
        · exact .inl ⟨rfl, rfl⟩
        · have hid := hg.lookup_of_nameOf (lt_of_nameOf hname) hname
          refine .inr ⟨?_, hid⟩
          rintro rfl
          rw [hlookup] at hid
          cases hid
    · rw [reserve_of_lookup_none hlookup]
      exact Dict.ordered_insert hg.ordered name g.size
    · rw [kind_reserve] at hchild
      have hid := lt_of_mem_references hchild
      rw [hext.nameOf_eq hid] at hnone
      exact hg.descending id hid hnone child hchild

/-! ## Changing a node -/

theorem Extends.modify (hgh : g.Extends h) (hid : g.size ≤ id) (change : TypeNode → TypeNode) :
    g.Extends (h.modify id change) := by
  refine ⟨by rw [size_modify]; exact hgh.size_le, fun other hother => ?_⟩
  rw [node_modify_of_ne h (Nat.ne_of_lt (Nat.lt_of_lt_of_le hother hid)), hgh.node_eq other hother]

theorem node_modify_of_size_le (hid : g.size ≤ id) (change : TypeNode → TypeNode) :
    (g.modify id change).node id = g.node id := by
  rw [node_of_size_le hid, node_of_size_le (by rwa [size_modify])]

theorem nameOf_modify (g : TypeGraph) (id : TypeId) {change : TypeNode → TypeNode}
    (hchange : ∀ node, (change node).name = node.name) (other : TypeId) :
    (g.modify id change).nameOf other = g.nameOf other := by
  by_cases hother : other = id
  · subst hother
    rcases Nat.lt_or_ge other g.size with hlt | hge
    · rw [nameOf, node_modify_self hlt, hchange, nameOf]
    · rw [nameOf, node_modify_of_size_le hge, nameOf]
  · rw [nameOf, node_modify_of_ne g hother, nameOf]

@[simp] theorem nameOf_setKind (g : TypeGraph) (id : TypeId) (kind : TypeKind) (other : TypeId) :
    (g.setKind id kind).nameOf other = g.nameOf other := by
  rw [setKind, nameOf_modify]
  exact fun _ => rfl

@[simp] theorem nameOf_setDescription (g : TypeGraph) (id : TypeId) (text : Option String)
    (other : TypeId) : (g.setDescription id text).nameOf other = g.nameOf other := by
  rw [setDescription, nameOf_modify]
  exact fun _ => rfl

@[simp] theorem size_setKind (g : TypeGraph) (id : TypeId) (kind : TypeKind) :
    (g.setKind id kind).size = g.size := size_modify g id _

@[simp] theorem size_setDescription (g : TypeGraph) (id : TypeId) (text : Option String) :
    (g.setDescription id text).size = g.size := size_modify g id _

@[simp] theorem lookup_setKind (g : TypeGraph) (id : TypeId) (kind : TypeKind) (name : String) :
    (g.setKind id kind).lookup name = g.lookup name := rfl

@[simp] theorem lookup_setDescription (g : TypeGraph) (id : TypeId) (text : Option String)
    (name : String) : (g.setDescription id text).lookup name = g.lookup name := rfl

theorem kind_setKind_self (hid : id < g.size) (kind : TypeKind) :
    (g.setKind id kind).kind id = kind := by
  rw [TypeGraph.kind, setKind, node_modify_self hid]

theorem kind_setKind_of_ne (g : TypeGraph) {other : TypeId} (hne : other ≠ id) (kind : TypeKind) :
    (g.setKind id kind).kind other = g.kind other := by
  rw [TypeGraph.kind, setKind, node_modify_of_ne g hne, TypeGraph.kind]

@[simp] theorem kind_setDescription (g : TypeGraph) (id : TypeId) (text : Option String)
    (other : TypeId) : (g.setDescription id text).kind other = g.kind other := by
  by_cases hother : other = id
  · subst hother
    rcases Nat.lt_or_ge other g.size with hlt | hge
    · rw [TypeGraph.kind, setDescription, node_modify_self hlt, TypeGraph.kind]
    · rw [TypeGraph.kind, setDescription, node_modify_of_size_le hge, TypeGraph.kind]
  · rw [TypeGraph.kind, setDescription, node_modify_of_ne g hother, TypeGraph.kind]

/-- A named node may get any shape that refers to nodes of the graph. -/
theorem Grown.setKind (hg : g.Grown) (hname : g.nameOf id ≠ none)
    (hkind : ∀ child ∈ kind.references, child < g.size) : (g.setKind id kind).Grown := by
  obtain ⟨name, hname'⟩ := Option.ne_none_iff_exists'.1 hname
  have hlt := lt_of_nameOf hname'
  refine ⟨⟨fun other hother child hchild => ?_, fun n other => ?_, hg.ordered⟩,
    fun other hother hnone child hchild => ?_⟩
  · rw [size_setKind] at hother ⊢
    by_cases heq : other = id
    · rw [heq, kind_setKind_self hlt] at hchild
      exact hkind child hchild
    · rw [kind_setKind_of_ne g heq] at hchild
      exact hg.references other hother child hchild
  · rw [lookup_setKind, nameOf_setKind, size_setKind]
    exact hg.indexed n other
  · rw [size_setKind] at hother
    rw [nameOf_setKind] at hnone
    have heq : other ≠ id := fun heq => hname (heq ▸ hnone)
    rw [kind_setKind_of_ne g heq] at hchild
    exact hg.descending other hother hnone child hchild

theorem Grown.setDescription (hg : g.Grown) (id : TypeId) (text : Option String) :
    (g.setDescription id text).Grown := by
  refine ⟨⟨fun other hother child hchild => ?_, fun n other => ?_, hg.ordered⟩,
    fun other hother hnone child hchild => ?_⟩
  · rw [size_setDescription] at hother ⊢
    rw [kind_setDescription] at hchild
    exact hg.references other hother child hchild
  · rw [lookup_setDescription, nameOf_setDescription, size_setDescription]
    exact hg.indexed n other
  · rw [size_setDescription] at hother
    rw [nameOf_setDescription] at hnone
    rw [kind_setDescription] at hchild
    exact hg.descending other hother hnone child hchild

end TypeGraph

end TypedClient.Types
