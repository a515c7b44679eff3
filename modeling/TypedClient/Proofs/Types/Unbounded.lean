import Mathlib.Data.Finset.Prod
import TypedClient.Proofs.Types.Equivalence
import TypedClient.Types.Describe

/-!
# Walks without a bound

Descriptions and comparisons follow the edges of a graph, and their definitions take a number of
steps after which they stop.  Here are the same walks without such a number; nothing comes of one
that goes on for ever.  Where every cycle passes through a named node they all end, and they end
where the bounded walks end, so the bound is never reached.

* `TypeGraph.describe?` is the description of a node, and `TypeGraph.describe?_eq` says that it is
  found;
* `TypeGraph.compareNodes?` compares two nodes and `equivalent?` is what it decides;
* `equivalent?_eq` says that the comparison ends: along one path each pair of named nodes is entered
  once, and between two of them lie only so many anonymous nodes;
* `Bisimulation.equivalent` says that it then succeeds on nodes that a bisimulation relates, for it
  finds no difference between them.
-/

set_option autoImplicit false

namespace TypedClient.Types

/-! ## Descriptions -/

namespace TypeGraph

/-- The description of a type, unless the descent to the next names does not end. -/
def describe? (g : TypeGraph) (id : TypeId) : Option String :=
  match g.nameOf id with
  | some name => some name
  | none =>
    match g.kind id with
    | .unknown => some "unknown"
    | .primitive p => some p.text
    | .object _ => some "object"
    | .map value => do return "map<" ++ (← g |>.describe? value) ++ ">"
    | .array item => do return (← g |>.describe? item) ++ "[]"
    | .enumeration values => some (String.intercalate " | " (values.map Json.compact))
    | .union members => do return String.intercalate " | " (← members.mapM (g |>.describe?))
partial_fixpoint

variable {g : TypeGraph} {id : TypeId}

/-- A description is found within as many steps as anonymous nodes follow each other. -/
theorem describe?_of_depthAtMost {depth : Nat} (h : g.DepthAtMost depth id) {steps : Nat}
    (hsteps : depth ≤ steps) : g.describe? id = some (g.describeWithin (steps + 1) id) := by
  induction h generalizing steps with
  | @named _ id hname =>
    obtain ⟨name, hname⟩ := Option.ne_none_iff_exists'.1 hname
    rw [describe?, describeWithin, hname]
  | @anonymous _ id _ ih =>
    obtain ⟨steps, rfl⟩ : ∃ n, steps = n + 1 := ⟨steps - 1, by omega⟩
    have hchild {child : TypeId} (h : child ∈ (g.kind id).references) :
        g.describe? child = some (g.describeWithin (steps + 1) child) := ih child h (by omega)
    rw [describe?, describeWithin]
    cases g.nameOf id with
    | some name => rfl
    | none =>
      cases hkind : g.kind id with
      | unknown | primitive | object | enumeration => rfl
      | map value | array item =>
        rw [hkind] at hchild
        simp only [hchild (List.mem_singleton_self _)]
        rfl
      | union members =>
        rw [hkind] at hchild
        have hmembers : members.mapM g.describe? =
            some (members.map (g.describeWithin (steps + 1))) :=
          mapM_of_forall_eq_some fun member hmember => hchild hmember
        simp only [hmembers]
        rfl

/-- **A description ends**, if no cycle consists of anonymous nodes only. -/
theorem describe?_eq (hreferences : ∀ id < g.size, ∀ child ∈ (g.kind id).references, child < g.size)
    (hacyclic : g.Acyclic) (hid : id < g.size) : g.describe? id = some (g.describe id) :=
  describe?_of_depthAtMost (depthAtMost_size hreferences hacyclic hid) (Nat.le_refl _)

end TypeGraph

/-! ## Comparisons -/

/-- Whether two fields have the same name and both are required or neither is. -/
def headsMatch (a b : Field) : Bool := a.name = b.name ∧ a.required = b.required

namespace TypeGraph

mutual

/-- Compares two nodes: the outcome of the comparison, unless it goes on for ever. -/
def compareNodes? (g h : TypeGraph) (a b : TypeId) (assumed : Assumed) : Option (Option Assumed) :=
  if (g.node a).name ≠ (h.node b).name then some none
  else if (g.node a).name.isNone then g |>.compareKinds? h (g.kind a) (h.kind b) assumed
  else if assumed.contains (a, b) then some (some assumed)
  else g |>.compareKinds? h (g.kind a) (h.kind b) ((a, b) :: assumed)
partial_fixpoint

/-- Compares two shapes. -/
def compareKinds? (g h : TypeGraph) (k l : TypeKind) (assumed : Assumed) :
    Option (Option Assumed) :=
  match k, l with
  | .unknown, .unknown => some (some assumed)
  | .primitive a, .primitive b => some (if a = b then some assumed else none)
  | .object as, .object bs =>
    if as.length = bs.length then
      g |>.compareAll? h (as.zipWith (fun a b => (headsMatch a b, a.type, b.type)) bs) assumed
    else some none
  | .map a, .map b => g |>.compareNodes? h a b assumed
  | .array a, .array b => g |>.compareNodes? h a b assumed
  | .enumeration as, .enumeration bs => some (if Json.agreesItems as bs then some assumed else none)
  | .union as, .union bs =>
    if as.length = bs.length then
      g |>.compareAll? h (as.zipWith (fun a b => (true, a, b)) bs) assumed
    else some none
  | _, _ => some none
partial_fixpoint

/-- Compares pairs of nodes in order, as long as what precedes them matches. -/
def compareAll? (g h : TypeGraph) (pairs : List (Bool × TypeId × TypeId)) (assumed : Assumed) :
    Option (Option Assumed) :=
  match pairs with
  | [] => some (some assumed)
  | (false, _, _) :: _ => some none
  | (true, a, b) :: rest => do
    match ← g |>.compareNodes? h a b assumed with
    | some later => g |>.compareAll? h rest later
    | none => return none
partial_fixpoint

end

end TypeGraph

/-- Whether two nodes are equivalent, unless their comparison goes on for ever. -/
def equivalent? (g : TypeGraph) (a : TypeId) (h : TypeGraph) (b : TypeId) : Option Bool :=
  (g.compareNodes? h a b []).map Option.isSome

/-- Pairs of nodes of two graphs, without repetition. -/
structure PairsOf (g h : TypeGraph) (assumed : Assumed) : Prop where
  /-- No pair occurs twice. -/
  nodup : assumed.Nodup
  /-- The ids are those of nodes. -/
  lt : ∀ pair ∈ assumed, pair.1 < g.size ∧ pair.2 < h.size

theorem PairsOf.length_le {g h : TypeGraph} {assumed : Assumed} (hpairs : PairsOf g h assumed) :
    assumed.length ≤ g.size * h.size := by
  classical
  have hsub : assumed.toFinset ⊆ Finset.range g.size ×ˢ Finset.range h.size := by
    intro pair hpair
    obtain ⟨ha, hb⟩ := hpairs.lt pair (List.mem_toFinset.1 hpair)
    exact Finset.mem_product.2 ⟨Finset.mem_range.2 ha, Finset.mem_range.2 hb⟩
  have hcard := Finset.card_le_card hsub
  rwa [List.toFinset_card_of_nodup hpairs.nodup, Finset.card_product, Finset.card_range,
    Finset.card_range] at hcard

/-- From pairs that are fine and are at least `n`, a comparison ends as the bounded one does, and so
are the pairs that are assumed afterwards. -/
def Settles (ok : Assumed → Prop) (n : Nat) (compare? : Assumed → Option (Option Assumed))
    (compare : Assumed → Option Assumed) : Prop :=
  ∀ assumed, ok assumed → n ≤ assumed.length → compare? assumed = some (compare assumed) ∧
    ∀ later, compare assumed = some later → ok later ∧ n ≤ later.length

section Settles

variable {g h : TypeGraph} {ok : Assumed → Prop} {n : Nat}
  {compare : TypeId → TypeId → Assumed → Option Assumed}

/-- A comparison that looks at no other nodes. -/
theorem settles_if (p : Prop) [Decidable p] : Settles ok n
    (fun assumed => some (if p then some assumed else none)) fun assumed =>
      if p then some assumed else none := by
  refine fun assumed hok hn => ⟨rfl, fun later hlater => ?_⟩
  split at hlater
  · cases hlater
    exact ⟨hok, hn⟩
  · cases hlater

theorem settles_some : Settles ok n (fun assumed => some (some assumed)) some :=
  fun _ hok hn => ⟨rfl, fun _ hlater => by cases hlater; exact ⟨hok, hn⟩⟩

theorem settles_none : Settles ok n (fun _ => some none) fun _ => none :=
  fun _ _ _ => ⟨rfl, fun _ hlater => nomatch hlater⟩

/-- Lists of different lengths are told apart. -/
theorem compareAll_of_length_ne {α : Type} {compareItems : α → α → Assumed → Option Assumed}
    {as bs : List α} (hlength : as.length ≠ bs.length) (assumed : Assumed) :
    compareAll compareItems as bs assumed = none := by
  induction as generalizing bs assumed with
  | nil =>
    cases bs with
    | nil => exact absurd rfl hlength
    | cons b bs => rfl
  | cons a as ih =>
    cases bs with
    | nil => rfl
    | cons b bs =>
      rw [compareAll]
      refine Option.bind_eq_none_iff.2 fun later _ => ih (fun heq => hlength ?_) later
      rw [List.length_cons, List.length_cons, heq]

/-- Lists whose items settle, where `pair` tells of two items what to compare. -/
theorem settles_all {α : Type} {compareItems : α → α → Assumed → Option Assumed}
    (pair : α → α → Bool × TypeId × TypeId) {as bs : List α}
    (hitems : ∀ a ∈ as, ∀ b ∈ bs, Settles ok n
      (fun assumed => if (pair a b).1 then g.compareNodes? h (pair a b).2.1 (pair a b).2.2 assumed
        else some none) (compareItems a b)) :
    Settles ok n
      (fun assumed => if as.length = bs.length then g.compareAll? h (as.zipWith pair bs) assumed
        else some none) (compareAll compareItems as bs) := by
  by_cases hlength : as.length = bs.length
  · simp only [if_pos hlength]
    induction as generalizing bs with
    | nil =>
      obtain rfl : bs = [] := List.eq_nil_of_length_eq_zero hlength.symm
      intro assumed hok hn
      dsimp only [List.zipWith_nil_left]
      rw [TypeGraph.compareAll?.eq_def]
      exact settles_some assumed hok hn
    | cons a as ih =>
      cases bs with
      | nil => cases hlength
      | cons b bs =>
        intro assumed hok hn
        have hrest := ih (fun a ha b hb => hitems a (List.mem_cons_of_mem _ ha) b
          (List.mem_cons_of_mem _ hb)) (Nat.succ.inj hlength)
        obtain ⟨hends, hlater⟩ := hitems a List.mem_cons_self b List.mem_cons_self assumed hok hn
        dsimp only [List.zipWith_cons_cons] at hends ⊢
        rw [compareAll, TypeGraph.compareAll?.eq_def]
        rcases hpair : pair a b with ⟨_ | _, c, d⟩
        · rw [hpair, if_neg Bool.false_ne_true] at hends
          rw [← Option.some.inj hends]
          exact ⟨rfl, fun _ hlater => nomatch hlater⟩
        · rw [hpair, if_pos rfl] at hends
          dsimp only
          rw [hends]
          cases hfirst : compareItems a b assumed with
          | none => exact ⟨rfl, fun _ hlater => nomatch hlater⟩
          | some later =>
            obtain ⟨hok, hn⟩ := hlater later hfirst
            exact hrest later hok hn
  · intro assumed _ _
    dsimp only
    rw [if_neg hlength, compareAll_of_length_ne hlength]
    exact ⟨rfl, fun _ hlater => nomatch hlater⟩

theorem settles_kinds {k l : TypeKind} (hchildren : ∀ a ∈ k.references, ∀ b ∈ l.references,
    Settles ok n (g.compareNodes? h a b) (compare a b)) :
    Settles ok n (g.compareKinds? h k l) fun assumed => compareKinds compare assumed k l := by
  rw [funext (TypeGraph.compareKinds?.eq_def g h k l)]
  cases k with
  | unknown =>
    cases l with
    | unknown => exact settles_some
    | _ => exact settles_none
  | primitive =>
    cases l with
    | primitive => exact settles_if _
    | _ => exact settles_none
  | object as =>
    cases l with
    | object bs =>
      refine settles_all (fun a b => (headsMatch a b, a.type, b.type)) fun a ha b hb => ?_
      have hab := hchildren a.type (List.mem_map_of_mem ha) b.type (List.mem_map_of_mem hb)
      by_cases hheads : a.name = b.name ∧ a.required = b.required
      · simpa only [headsMatch, hheads, decide_true, and_self, if_true] using hab
      · simpa only [headsMatch, hheads, decide_false, Bool.false_eq_true, if_false]
          using settles_none
    | _ => exact settles_none
  | map a =>
    cases l with
    | map b => exact hchildren a (List.mem_singleton_self _) b (List.mem_singleton_self _)
    | _ => exact settles_none
  | array a =>
    cases l with
    | array b => exact hchildren a (List.mem_singleton_self _) b (List.mem_singleton_self _)
    | _ => exact settles_none
  | enumeration =>
    cases l with
    | enumeration => exact settles_if _
    | _ => exact settles_none
  | union as =>
    cases l with
    | union bs => exact settles_all (fun a b => (true, a, b)) hchildren
    | _ => exact settles_none

/-- The comparison of two nodes settles in as many steps as it may need: one for each of the
remaining pairs of named nodes and a row of anonymous nodes before each. -/
theorem settles_nodes (hg : ∀ id < g.size, ∀ child ∈ (g.kind id).references, child < g.size)
    (hh : ∀ id < h.size, ∀ child ∈ (h.kind id).references, child < h.size)
    (hdepth : ∀ id < g.size, g.DepthAtMost g.size id) (steps : Nat) :
    ∀ {a b : TypeId} {depth n : Nat}, a < g.size → b < h.size → g.DepthAtMost depth a →
      n ≤ g.size * h.size → (g.size * h.size - n) * (g.size + 1) + depth + 1 ≤ steps →
        Settles (PairsOf g h) n (g.compareNodes? h a b) (compareNodes g h steps a b) := by
  induction steps with
  | zero =>
    intro a b depth n _ _ _ _ hsteps
    omega
  | succ steps ih =>
    intro a b depth n ha hb hrow hn hsteps assumed hok hlength
    rw [TypeGraph.compareNodes?.eq_def, compareNodes]
    split
    · exact settles_none assumed hok hlength
    split
    · rename_i hanonymous
      cases hrow with
      | named h => exact absurd (Option.isNone_iff_eq_none.1 hanonymous) h
      | @anonymous depth _ hrow =>
        refine settles_kinds (n := n) (fun c hc d hd => ?_) assumed hok hlength
        exact ih (hg a ha c hc) (hh b hb d hd) (hrow c hc) hn (by omega)
    split
    · exact settles_some assumed hok hlength
    · rename_i hmem
      have hnew : (a, b) ∉ assumed := fun hmem' => hmem (List.contains_iff_mem.2 hmem')
      have hok' : PairsOf g h ((a, b) :: assumed) :=
        ⟨List.nodup_cons.2 ⟨hnew, hok.nodup⟩, List.forall_mem_cons.2 ⟨⟨ha, hb⟩, hok.lt⟩⟩
      have hbound := hok'.length_le
      rw [List.length_cons] at hbound
      have hchildren : Settles (PairsOf g h) (n + 1) (g.compareKinds? h (g.kind a) (h.kind b))
          fun assumed => compareKinds (compareNodes g h steps) assumed (g.kind a) (h.kind b) := by
        refine settles_kinds fun c hc d hd => ?_
        refine ih (hg a ha c hc) (hh b hb d hd) (hdepth c (hg a ha c hc)) (by omega) ?_
        obtain ⟨left, hleft⟩ : ∃ left, g.size * h.size - n = left + 1 :=
          ⟨g.size * h.size - n - 1, by omega⟩
        have hleft' : g.size * h.size - (n + 1) = left := by omega
        rw [hleft, Nat.add_mul, Nat.one_mul] at hsteps
        rw [hleft']
        omega
      obtain ⟨hends, hlater⟩ := hchildren _ hok' (Nat.succ_le_succ hlength)
      exact ⟨hends, fun later h => ⟨(hlater later h).1, Nat.le_of_succ_le (hlater later h).2⟩⟩

end Settles

/-- **A comparison ends**, and the bound on its depth is not reached: along one path each pair of
named nodes is entered once, and rows of anonymous nodes are no longer than the graph. -/
theorem equivalent?_eq {g h : TypeGraph}
    (hg : ∀ id < g.size, ∀ child ∈ (g.kind id).references, child < g.size)
    (hh : ∀ id < h.size, ∀ child ∈ (h.kind id).references, child < h.size) (hacyclic : g.Acyclic)
    {a b : TypeId} (ha : a < g.size) (hb : b < h.size) :
    equivalent? g a h b = some (equivalent g a h b) := by
  have hdepth : ∀ id < g.size, g.DepthAtMost g.size id :=
    fun _ hid => TypeGraph.depthAtMost_size hg hacyclic hid
  have hsettles := settles_nodes hg hh hdepth (comparisonDepth g h) ha hb (hdepth a ha)
    (Nat.zero_le _) (by rw [comparisonDepth, Nat.sub_zero, Nat.add_mul]; omega)
  rw [equivalent?, (hsettles [] ⟨List.nodup_nil, by simp⟩ (Nat.zero_le _)).1]
  rfl

/-! ## Comparisons of related nodes -/

/-- A comparison of nodes that a bisimulation relates finds no difference. -/
theorem Bisimulation.isSome_of_compareNodes? {g h : TypeGraph} {R : TypeId → TypeId → Prop}
    (hR : Bisimulation g h R) {a b : TypeId} (hab : R a b) {assumed : Assumed}
    {outcome : Option Assumed} (hends : g.compareNodes? h a b assumed = some outcome) :
    outcome.isSome := by
  refine TypeGraph.compareNodes?.partial_correctness g h
    (fun a b _ outcome => R a b → outcome.isSome)
    (fun k l _ outcome => KindsMatch R k l → outcome.isSome)
    (fun pairs _ outcome => (∀ pair ∈ pairs, pair.1 = true ∧ R pair.2.1 pair.2.2) → outcome.isSome)
    ?nodes ?kinds ?all a b assumed outcome hends hab
  case nodes =>
    intro compareKinds? hkinds a b assumed outcome hends hab
    have hname : (g.node a).name = (h.node b).name := hR.name hab
    rw [if_neg (not_not_intro hname)] at hends
    split at hends
    · exact hkinds _ _ _ _ hends (hR.kind hab)
    split at hends
    · rw [← Option.some.inj hends]
      rfl
    · exact hkinds _ _ _ _ hends (hR.kind hab)
  case kinds =>
    intro compareNodes? compareAll? hnodes hall k l assumed outcome hends hkl
    cases hkl with
    | unknown =>
      rw [← Option.some.inj hends]
      rfl
    | primitive p =>
      rw [← Option.some.inj hends, if_pos rfl]
      rfl
    | object h =>
      dsimp only at hends
      rw [if_pos h.length_eq] at hends
      refine hall _ _ _ hends (forall_mem_zipWith h fun a b hab => ⟨?_, hab.type⟩)
      exact decide_eq_true ⟨hab.name, hab.required⟩
    | map h => exact hnodes _ _ _ _ hends h
    | array h => exact hnodes _ _ _ _ hends h
    | enumeration h =>
      rw [← Option.some.inj hends, if_pos h]
      rfl
    | union h =>
      dsimp only at hends
      rw [if_pos h.length_eq] at hends
      exact hall _ _ _ hends (forall_mem_zipWith h fun a b hab => ⟨rfl, hab⟩)
  case all =>
    intro compareNodes? compareAll? hnodes hall pairs assumed outcome hends hpairs
    split at hends
    · rw [← Option.some.inj hends]
      rfl
    · cases (hpairs _ List.mem_cons_self).1
    · obtain ⟨hfirst, hrest⟩ := List.forall_mem_cons.1 hpairs
      obtain ⟨first, hcompare, hends⟩ := Option.bind_eq_some_iff.1 hends
      obtain ⟨later, rfl⟩ := Option.isSome_iff_exists.1 (hnodes _ _ _ _ hcompare hfirst.2)
      exact hall _ _ _ hends hrest

/-- **Bisimilar nodes are equivalent**, if the graph has no cycle of anonymous nodes. -/
theorem Bisimulation.equivalent {g h : TypeGraph} {R : TypeId → TypeId → Prop}
    (hR : Bisimulation g h R)
    (hg : ∀ id < g.size, ∀ child ∈ (g.kind id).references, child < g.size)
    (hh : ∀ id < h.size, ∀ child ∈ (h.kind id).references, child < h.size) (hacyclic : g.Acyclic)
    {a b : TypeId} (hab : R a b) : equivalent g a h b = true := by
  obtain ⟨ha, hb⟩ := hR.lt hab
  obtain ⟨outcome, hends, hequal⟩ := Option.map_eq_some_iff.1 (equivalent?_eq hg hh hacyclic ha hb)
  rw [← hequal]
  exact hR.isSome_of_compareNodes? hab hends

end TypedClient.Types
