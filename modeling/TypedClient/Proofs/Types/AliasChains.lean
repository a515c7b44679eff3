import Mathlib.Data.Finset.Card
import TypedClient.Declaration.OfGraph
import TypedClient.OpenApi.SchemaTypes
import TypedClient.Proofs.Types.Growth

/-!
# Chains of aliases

Aliases may stand for aliases, and a chain of them may come back to itself.  Whatever looks through
aliases follows such a chain for as many steps as the graph has nodes: `TypeGraph.resolve` to the
node at the end, what unions have in common (`Declaration.memberKinds`) to its shape, and merging
(`OpenApi.aliasedKind`) to its shape as well, except that it tests a node only as long as steps are
left, and has no shape for a chain that has used them up.

* `AliasChain` says that so many aliases lead from a node to another; a chain ends (`AliasesEndAt`)
  or comes back to a node (`AliasesCircle`), never both;
* `AliasChain.lt_size` is why the steps suffice: a chain that ends passes no node twice, so it has
  fewer aliases than there are nodes;
* `resolve_of_aliases` says what each of the three finds;
* `aliasedKind_of_grows` says that what a node was known to stand for it goes on standing for.
-/

set_option autoImplicit false

namespace TypedClient.Types

open Declaration (memberKinds)
open OpenApi (aliasedKind)

variable {g : TypeGraph} {id last : TypeId} {n : Nat}

/-- The node is an alias: a union of one member. -/
def IsAlias (g : TypeGraph) (id : TypeId) : Prop := ∃ member, g.kind id = .union [member]

/-- A chain of so many aliases leads from a node to another. -/
inductive AliasChain (g : TypeGraph) : TypeId → Nat → TypeId → Prop
  /-- No alias leads from a node to itself. -/
  | here {id : TypeId} : AliasChain g id 0 id
  /-- From an alias to its member, and on. -/
  | step {id member last : TypeId} {n : Nat} (hkind : g.kind id = .union [member])
      (h : AliasChain g member n last) : AliasChain g id (n + 1) last

/-- The aliases from a node on end at another, which is none. -/
def AliasesEndAt (g : TypeGraph) (id last : TypeId) : Prop :=
  (∃ n, AliasChain g id n last) ∧ ¬IsAlias g last

/-- The aliases from a node on come back to a node that they have passed. -/
def AliasesCircle (g : TypeGraph) (id : TypeId) : Prop :=
  ∃ node, (∃ n, AliasChain g id n node) ∧ ∃ n, AliasChain g node (n + 1) node

/-! ## Chains -/

theorem AliasChain.eq_of_eq {other : TypeId} (h : AliasChain g id n last)
    (hother : AliasChain g id n other) : last = other := by
  induction h with
  | here =>
    cases hother
    rfl
  | step hkind _ ih =>
    cases hother with
    | step hkind' hrest =>
      rw [hkind] at hkind'
      cases hkind'
      exact ih hrest

theorem AliasChain.trans {node : TypeId} {m : Nat} (h : AliasChain g id n node)
    (hrest : AliasChain g node m last) : AliasChain g id (n + m) last := by
  induction h with
  | here => simpa using hrest
  | @step id member node n hkind _ ih =>
    rw [Nat.add_right_comm]
    exact .step hkind (ih hrest)

/-- A chain passes a node after each number of steps. -/
theorem AliasChain.exists_between {m : Nat} :
    ∀ {id : TypeId}, AliasChain g id (n + m) last →
      ∃ node, AliasChain g id n node ∧ AliasChain g node m last := by
  induction n with
  | zero => exact fun {id} h => ⟨id, .here, by simpa using h⟩
  | succ n ih =>
    intro id h
    rw [Nat.add_right_comm] at h
    cases h with
    | step hkind hrest =>
      obtain ⟨node, hfirst, hsecond⟩ := ih hrest
      exact ⟨node, .step hkind hfirst, hsecond⟩

theorem AliasChain.lt (hg : g.Closed) (h : AliasChain g id n last) (hid : id < g.size) :
    last < g.size := by
  induction h with
  | here => exact hid
  | step hkind _ ih => exact ih (hg.1 _ hid _ (by simp [hkind, TypeKind.references]))

/-- A chain goes on for any number of steps, or else ends before. -/
theorem exists_aliasChain_or_endsAt (g : TypeGraph) (n : Nat) :
    ∀ id, (∃ last, AliasChain g id n last) ∨ ∃ last, AliasesEndAt g id last := by
  induction n with
  | zero => exact fun id => .inl ⟨id, .here⟩
  | succ n ih =>
    intro id
    by_cases hid : IsAlias g id
    · obtain ⟨member, hkind⟩ := hid
      rcases ih member with ⟨last, h⟩ | ⟨last, ⟨m, h⟩, hlast⟩
      · exact .inl ⟨last, .step hkind h⟩
      · exact .inr ⟨last, ⟨m + 1, .step hkind h⟩, hlast⟩
    · exact .inr ⟨id, ⟨0, .here⟩, hid⟩

/-- Nothing goes on behind the end of a chain. -/
theorem AliasChain.le_of_not_isAlias {node : TypeId} {m : Nat} (h : AliasChain g id n last)
    (hlast : ¬IsAlias g last) (hnode : AliasChain g id m node) : m ≤ n := by
  by_contra hlt
  obtain ⟨k, rfl⟩ := Nat.exists_eq_add_of_lt (Nat.lt_of_not_le hlt)
  obtain ⟨passed, hpassed, hrest⟩ := AliasChain.exists_between (n := n) (m := k + 1) hnode
  rw [← h.eq_of_eq hpassed] at hrest
  cases hrest with
  | step hkind _ => exact hlast ⟨_, hkind⟩

/-! ## Chains that come back -/

/-- What comes back comes back any number of times. -/
theorem AliasChain.rounds {node : TypeId} (h : AliasChain g node n node) (k : Nat) :
    AliasChain g node (k * n) node := by
  induction k with
  | zero => simpa using AliasChain.here
  | succ k ih =>
    rw [Nat.succ_mul]
    exact ih.trans h

/-- Behind a node that the chain comes back to, all nodes are such nodes. -/
theorem AliasChain.exists_round_of_round {node : TypeId} {k : Nat} (h : AliasChain g node k last)
    (hround : AliasChain g node (n + 1) node) : ∃ m, AliasChain g last (m + 1) last := by
  have hrounds := hround.rounds (k + 1)
  rw [show (k + 1) * (n + 1) = k + (k * n + n + 1) by simp only [Nat.mul_succ, Nat.succ_mul]; omega]
    at hrounds
  obtain ⟨passed, hfirst, hback⟩ := hrounds.exists_between
  cases hfirst.eq_of_eq h
  refine ⟨k * n + n + k, ?_⟩
  rw [Nat.add_right_comm]
  exact hback.trans h

/-- A chain that comes back goes on for ever. -/
theorem AliasesCircle.exists_aliasChain (h : AliasesCircle g id) (n : Nat) :
    ∃ last, AliasChain g id n last := by
  obtain ⟨node, ⟨start, hstart⟩, m, hround⟩ := h
  have hlong := hstart.trans (hround.rounds n)
  rw [Nat.mul_succ, ← Nat.add_assoc, Nat.add_comm _ n] at hlong
  obtain ⟨last, hlast, -⟩ := hlong.exists_between
  exact ⟨last, hlast⟩

theorem AliasesCircle.not_endsAt (h : AliasesCircle g id) : ¬AliasesEndAt g id last := by
  rintro ⟨⟨n, hn⟩, hlast⟩
  obtain ⟨node, hnode⟩ := h.exists_aliasChain (n + 1)
  have := hn.le_of_not_isAlias hlast hnode
  omega

/-- **Pigeonhole.**  A chain that takes as many steps as there are nodes has met a node twice, so it
is at a node that it comes back to. -/
theorem AliasChain.exists_round (hg : g.Closed) (hid : id < g.size)
    (h : AliasChain g id g.size last) :
    ∃ m, AliasChain g last (m + 1) last := by
  have hpassed : ∀ n ∈ Finset.range (g.size + 1), ∃ node, AliasChain g id n node ∧
      AliasChain g node (g.size - n) last := fun n hn => by
    have hle : n ≤ g.size := Nat.le_of_lt_succ (Finset.mem_range.1 hn)
    rw [← Nat.add_sub_of_le hle] at h
    exact h.exists_between
  choose! node hto hon using hpassed
  -- Of two places with one node, a chain leads from the first to the second.
  have hround {n m : Nat} (hn : n ∈ Finset.range (g.size + 1)) (hm : m ∈ Finset.range (g.size + 1))
      (hlt : n < m) (heq : node n = node m) : ∃ m, AliasChain g last (m + 1) last := by
    obtain ⟨k, rfl⟩ := Nat.exists_eq_add_of_lt hlt
    obtain ⟨passed, hfirst, hrest⟩ := AliasChain.exists_between (n := n) (m := k + 1) (hto _ hm)
    cases hfirst.eq_of_eq (hto n hn)
    have hback : AliasChain g (node n) (k + 1) (node n) := by rwa [← Nat.add_assoc, ← heq] at hrest
    exact (hon n hn).exists_round_of_round hback
  obtain ⟨n, hn, m, hm, hne, heq⟩ := Finset.exists_ne_map_eq_of_card_lt_of_maps_to
    (s := Finset.range (g.size + 1)) (t := Finset.range g.size) (f := node) (by simp)
    fun n hn => Finset.mem_coe.2 (Finset.mem_range.2 ((hto n hn).lt hg hid))
  rcases Nat.lt_or_gt_of_ne hne with hlt | hlt
  · exact hround hn hm hlt heq
  · exact hround hm hn hlt heq.symm

/-- A chain that ends passes no node twice. -/
theorem AliasChain.lt_size (hg : g.Closed) (hid : id < g.size) (h : AliasChain g id n last)
    (hlast : ¬IsAlias g last) : n < g.size := by
  by_contra hle
  obtain ⟨k, rfl⟩ := Nat.exists_eq_add_of_le (Nat.le_of_not_lt hle)
  obtain ⟨node, hfirst, -⟩ := h.exists_between
  have hcircle : AliasesCircle g id := ⟨node, ⟨_, hfirst⟩, hfirst.exists_round hg hid⟩
  exact hcircle.not_endsAt ⟨⟨_, h⟩, hlast⟩

/-- A chain ends or comes back. -/
theorem aliasesEndAt_or_circle (hg : g.Closed) (hid : id < g.size) :
    (∃ last, AliasesEndAt g id last) ∨ AliasesCircle g id := by
  rcases exists_aliasChain_or_endsAt g g.size id with ⟨node, h⟩ | hends
  · exact .inr ⟨node, ⟨_, h⟩, h.exists_round hg hid⟩
  · exact .inl hends

/-! ## Looking through aliases -/

theorem resolveWithin_of_not_isAlias (hid : ¬IsAlias g id) (steps : Nat) :
    g.resolveWithin id steps = id := by
  cases steps with
  | zero => rfl
  | succ steps =>
    rw [TypeGraph.resolveWithin]
    split
    · exact absurd ⟨_, ‹_›⟩ hid
    · rfl

theorem aliasedKind_of_not_isAlias (hid : ¬IsAlias g id) (steps : Nat) :
    aliasedKind g id (steps + 1) = g.kind id := by
  rw [aliasedKind]
  split
  · exact absurd ⟨_, ‹_›⟩ hid
  · rfl

theorem AliasChain.resolveWithin_add (h : AliasChain g id n last) (steps : Nat) :
    g.resolveWithin id (n + steps) = g.resolveWithin last steps := by
  induction h with
  | here => rw [Nat.zero_add]
  | step hkind _ ih =>
    rw [Nat.add_right_comm, TypeGraph.resolveWithin, hkind]
    exact ih

theorem AliasChain.aliasedKind_add (h : AliasChain g id n last) (steps : Nat) :
    aliasedKind g id (n + steps) = aliasedKind g last steps := by
  induction h with
  | here => rw [Nat.zero_add]
  | step hkind _ ih =>
    rw [Nat.add_right_comm, aliasedKind, hkind]
    exact ih

/-- As many steps as there are aliases find the end. -/
theorem AliasChain.resolveWithin_eq (h : AliasChain g id n last) (hlast : ¬IsAlias g last)
    {steps : Nat} (hsteps : n ≤ steps) : g.resolveWithin id steps = last := by
  obtain ⟨k, rfl⟩ := Nat.exists_eq_add_of_le hsteps
  rw [h.resolveWithin_add, resolveWithin_of_not_isAlias hlast]

/-- Merging takes one step more, and finds nothing with fewer. -/
theorem AliasChain.aliasedKind_eq (h : AliasChain g id n last) (hlast : ¬IsAlias g last)
    (steps : Nat) :
    aliasedKind g id steps = if n < steps then g.kind last else .unknown := by
  split
  · rename_i hlt
    obtain ⟨k, rfl⟩ := Nat.exists_eq_add_of_lt hlt
    rw [Nat.add_assoc, h.aliasedKind_add, aliasedKind_of_not_isAlias hlast]
  · rename_i hle
    obtain ⟨k, rfl⟩ := Nat.exists_eq_add_of_le (Nat.le_of_not_lt hle)
    obtain ⟨node, hfirst, -⟩ := h.exists_between
    exact hfirst.aliasedKind_add 0

theorem AliasesCircle.aliasedKind_eq (h : AliasesCircle g id) (steps : Nat) :
    aliasedKind g id steps = .unknown := by
  obtain ⟨node, hnode⟩ := h.exists_aliasChain steps
  exact hnode.aliasedKind_add 0

/-- A union sees the shape at the end of a member, unless that is null. -/
theorem memberKinds_singleton (hkind : g.kind (g.resolve id) ≠ .primitive .null) :
    memberKinds g [id] = [g.kind (g.resolve id)] := by
  rw [memberKinds, List.map_singleton, List.filter_cons_of_pos]
  · rfl
  · split
    · exact absurd ‹_› hkind
    · rfl

theorem memberKinds_singleton_null (hkind : g.kind (g.resolve id) = .primitive .null) :
    memberKinds g [id] = [] := by
  simp [memberKinds, hkind]

/-- **Aliases are looked through to their end.**  In a graph that is closed, aliases end at a node
or come back.  Where they end, as many steps as there are nodes find the end, and more find nothing
else: for the node itself, for its shape as a member of a union, and for its shape in a merge.
Where they come back, the node that is found is an alias that the chain has come to and comes back
to, and merging finds no shape. -/
theorem resolve_of_aliases (hg : g.Closed) (hid : id < g.size) :
    ((∃ last, AliasesEndAt g id last) ↔ ¬AliasesCircle g id) ∧
      (∀ last, AliasesEndAt g id last →
        (∀ steps, g.size ≤ steps → g.resolveWithin id steps = last ∧
          aliasedKind g id steps = g.kind last) ∧
        g.resolve id = last ∧
        (g.kind last ≠ .primitive .null → memberKinds g [id] = [g.kind last]) ∧
        (g.kind last = .primitive .null → memberKinds g [id] = []) ∧
        aliasedKind g id g.size = g.kind last) ∧
      (AliasesCircle g id →
        (∃ n, AliasChain g id n (g.resolve id)) ∧
        (∃ n, AliasChain g (g.resolve id) (n + 1) (g.resolve id)) ∧
        IsAlias g (g.resolve id) ∧
        memberKinds g [id] = [g.kind (g.resolve id)] ∧
        aliasedKind g id g.size = .unknown) := by
  refine ⟨⟨fun ⟨last, hends⟩ hcircle => hcircle.not_endsAt hends,
    (aliasesEndAt_or_circle hg hid).resolve_right⟩, ?_, ?_⟩
  · rintro last ⟨⟨n, hn⟩, hlast⟩
    have hlt : n < g.size := hn.lt_size hg hid hlast
    have hfound {steps : Nat} (hsteps : g.size ≤ steps) :
        g.resolveWithin id steps = last ∧ aliasedKind g id steps = g.kind last := by
      refine ⟨hn.resolveWithin_eq hlast (by omega), ?_⟩
      rw [hn.aliasedKind_eq hlast, if_pos (by omega)]
    have hresolve : g.resolve id = last := (hfound (Nat.le_refl _)).1
    rw [← hresolve]
    rw [← hresolve] at hfound
    exact ⟨fun steps => hfound, rfl, memberKinds_singleton, memberKinds_singleton_null,
      (hfound (Nat.le_refl _)).2⟩
  · intro hcircle
    obtain ⟨node, hnode⟩ := hcircle.exists_aliasChain g.size
    have hresolve : g.resolve id = node := hnode.resolveWithin_add 0
    obtain ⟨m, hround⟩ := hnode.exists_round hg hid
    rw [← hresolve] at hnode hround
    have halias : IsAlias g (g.resolve id) := by
      cases hround with
      | step hkind _ => exact ⟨_, hkind⟩
    obtain ⟨member, hkind⟩ := halias
    exact ⟨⟨_, hnode⟩, ⟨m, hround⟩, ⟨member, hkind⟩,
      memberKinds_singleton (by rw [hkind]; exact TypeKind.noConfusion), hcircle.aliasedKind_eq _⟩

/-- Two aliases in a row, and two that stand for each other. -/
def chainedAliases : TypeGraph :=
  ⟨#[⟨some "First", .union [1], none⟩, ⟨some "Second", .union [2], none⟩,
      ⟨some "Last", .primitive .string, none⟩, ⟨some "This", .union [4], none⟩,
      ⟨some "That", .union [3], none⟩],
    [("First", 0), ("Last", 2), ("Second", 1), ("That", 4), ("This", 3)]⟩

theorem resolve_of_aliases_chained :
    chainedAliases.Closed ∧ 0 < chainedAliases.size ∧ 3 < chainedAliases.size ∧
      AliasesEndAt chainedAliases 0 2 ∧ chainedAliases.resolve 0 = 2 ∧
      AliasesCircle chainedAliases 3 ∧
      aliasedKind chainedAliases 3 chainedAliases.size = .unknown := by
  have hclosed : chainedAliases.Closed := by unfold TypeGraph.Closed; decide
  have hends : AliasesEndAt chainedAliases 0 2 :=
    ⟨⟨2, .step rfl (.step rfl .here)⟩, fun ⟨_, hkind⟩ => nomatch hkind⟩
  have hcircle : AliasesCircle chainedAliases 3 :=
    ⟨3, ⟨0, .here⟩, 1, .step rfl (.step rfl .here)⟩
  have hfirst := @resolve_of_aliases chainedAliases 0 hclosed (by decide)
  have hthis := @resolve_of_aliases chainedAliases 3 hclosed (by decide)
  exact ⟨hclosed, by decide, by decide, hends, (hfirst.2.1 2 hends).2.1, hcircle,
    (hthis.2.2 hcircle).2.2.2.2⟩

end TypedClient.Types

namespace TypedClient.OpenApi

open TypedClient.Types

variable {g : TypeGraph} {id : TypeId}

/-! ## Graphs that grow -/

/-- What an alias stands for is the shape of a node, if it is anything. -/
theorem aliasedKind_eq (hg : g.Sound) (hid : id < g.size) (steps : Nat) :
    aliasedKind g id steps = .unknown ∨
      ∃ target < g.size, aliasedKind g id steps = g.kind target := by
  induction steps generalizing id with
  | zero => exact .inl rfl
  | succ steps ih =>
    rw [aliasedKind]
    split
    · rename_i member hkind
      have hmember : member ∈ (g.kind id).references := by
        rw [hkind]
        exact List.mem_cons_self
      exact ih (hg.references id hid member hmember)
    · exact .inr ⟨id, hid, rfl⟩

theorem aliasedKind_of_object {fields : List Field} (hkind : g.kind id = .object fields)
    {steps : Nat} (hsteps : 0 < steps) : aliasedKind g id steps = .object fields := by
  obtain ⟨steps, rfl⟩ : ∃ n, steps = n + 1 := Nat.exists_eq_succ_of_ne_zero (Nat.ne_of_gt hsteps)
  rw [aliasedKind, hkind]

/-- What a node was known to stand for it goes on standing for. -/
theorem aliasedKind_of_grows {h : TypeGraph} (hg : g.Sound) (hgh : g.Grows h) (hid : id < g.size)
    {steps more : Nat} (hle : steps ≤ more) (hknown : aliasedKind g id steps ≠ .unknown) :
    aliasedKind h id more = aliasedKind g id steps := by
  induction steps generalizing id more with
  | zero => exact absurd rfl hknown
  | succ steps ih =>
    obtain ⟨more, rfl⟩ : ∃ n, more = n + 1 := Nat.exists_eq_succ_of_ne_zero (by omega)
    have hkept : h.kind id = g.kind id := by
      refine hgh.kind_eq id hid (.inr fun hunknown => hknown ?_)
      rw [aliasedKind, hunknown]
    rw [aliasedKind] at hknown ⊢
    rw [aliasedKind, hkept]
    split
    · rename_i member hkind
      rw [hkind] at hknown
      have hmember : member ∈ (g.kind id).references := by
        rw [hkind]
        exact List.mem_cons_self
      exact ih (hg.references id hid member hmember) (Nat.le_of_succ_le_succ hle) hknown
    · rfl

/-- Nodes that look the same stand for the same. -/
theorem aliasedKind_congr {h : TypeGraph} {steps : Nat}
    (hkinds : ∀ n, h.kind (g.resolveWithin id n) = g.kind (g.resolveWithin id n)) :
    aliasedKind h id steps = aliasedKind g id steps := by
  induction steps generalizing id with
  | zero => rfl
  | succ steps ih =>
    have hkind : h.kind id = g.kind id := hkinds 0
    rw [aliasedKind, aliasedKind, hkind]
    split
    · rename_i member hmember
      refine ih fun n => ?_
      have hnext := hkinds (n + 1)
      rw [TypeGraph.resolveWithin, hmember] at hnext
      exact hnext
    · rfl

/-- More steps than there are nodes lead no further. -/
theorem aliasedKind_size_ne_unknown (hg : g.Sound) (hid : id < g.size) {steps : Nat}
    (h : aliasedKind g id steps ≠ .unknown) : aliasedKind g id g.size ≠ .unknown := by
  rcases aliasesEndAt_or_circle hg.closed hid with ⟨last, ⟨n, hn⟩, hlast⟩ | hcircle
  · rw [hn.aliasedKind_eq hlast] at h
    rw [hn.aliasedKind_eq hlast, if_pos (hn.lt_size hg.closed hid hlast)]
    split at h
    · exact h
    · exact absurd rfl h
  · exact absurd (hcircle.aliasedKind_eq steps) h

end TypedClient.OpenApi
