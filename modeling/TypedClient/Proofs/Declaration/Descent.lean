import Mathlib.Data.Fintype.Card
import Mathlib.Data.Set.Finite.Lemmas
import Mathlib.Logic.Relation
import TypedClient.Proofs.Declaration.Expressions

/-!
# Which types have an expression

A descent goes from one number to others, as a relation tells, and from there on.  It ends if it
does so on every way; that is what `Acc` says of the relation turned round.  Among finitely many
numbers it ends just if no way comes back to where it was (`acc_iff_no_cycle`).

The expression for an anonymous node is made of those for its parts, and of theirs, down to names.
The descent ends unless an anonymous node is a part of itself (`isSome_expr?_iff`).  Written as they
are, types are made of the types that they refer to, so this does not happen where cycles pass
through named nodes (`isSome_expr?_of_native`).  A union that is widened has parts of another kind:
the types of the fields that its members have in common, whether or not the members have names.
-/

set_option autoImplicit false

/-! ## Descents that end -/

namespace TypedClient

open Relation

/-- A descent that ends does not come back to its start. -/
theorem not_transGen_of_acc {α : Type} {r : α → α → Prop} {a : α} (h : Acc (Function.swap r) a) :
    ¬TransGen r a a := by
  have hall := h.transGen
  clear h
  induction hall with
  | intro a _ ih => exact fun hcycle => ih a (transGen_swap.2 hcycle) hcycle

theorem acc_of_reflTransGen {α : Type} {r : α → α → Prop} {a b : α} (h : Acc (Function.swap r) a)
    (hab : ReflTransGen r a b) : Acc (Function.swap r) b := by
  induction hab with
  | refl => exact h
  | tail _ hstep ih => exact ih.inv hstep

/-- **A descent among finitely many numbers ends** just if no cycle is reached. -/
theorem acc_iff_no_cycle {r : Nat → Nat → Prop} {n : Nat} (hlt : ∀ {a b}, r a b → b < n) {a : Nat} :
    Acc (Function.swap r) a ↔ ∀ b, ReflTransGen r a b → ¬TransGen r b b := by
  refine ⟨fun h b hab => not_transGen_of_acc (acc_of_reflTransGen h hab), fun h => ?_⟩
  -- Where no cycle is reached, the steps lead down a well-founded order of what is reached.
  let reached := { b // ReflTransGen r a b }
  let below (x y : reached) : Prop := TransGen r y.1 x.1
  have hfinite : Finite reached := by
    refine Set.Finite.subset ((Set.finite_lt_nat n).insert a) fun b hab => ?_
    rcases hab.cases_tail with rfl | ⟨c, -, hcb⟩
    · exact Set.mem_insert _ _
    · exact Set.mem_insert_of_mem _ (hlt hcb)
  have htrans : IsTrans reached below := ⟨fun _ _ _ hxy hyz => hyz.trans hxy⟩
  have hirrefl : Std.Irrefl below := ⟨fun x => h x.1 x.2⟩
  have hwellFounded := Finite.wellFounded_of_trans_of_irrefl below
  have hacc (x : reached) : Acc (Function.swap r) x.1 := by
    induction x using hwellFounded.induction with
    | _ x ih => exact ⟨_, fun b hb => ih ⟨b, x.2.tail hb⟩ (.single hb)⟩
  exact hacc ⟨a, .refl⟩

end TypedClient

/-! ## The expression for a node -/

namespace TypedClient.Declaration

open Relation TypedClient.Types

/-- The expression for a node is made of the one for another. -/
structure MadeOf (g : TypeGraph) (style : Style) (id part : TypeId) : Prop where
  /-- The node is not written by its name. -/
  anonymous : g.nameOf id = none
  /-- The other is a part of it. -/
  part : part ∈ partsOf g style (g.kind id)

variable {g : TypeGraph} {style : Style} {id : TypeId}

/-- Where the descent ends there is an expression. -/
theorem isSome_expr?_of_acc (h : Acc (Function.swap (MadeOf g style)) id) :
    (style.expr? g id).isSome := by
  induction h with
  | intro id _ ih =>
    cases hname : g.nameOf id with
    | some name =>
      rw [expr?_of_named hname]
      rfl
    | none =>
      rw [expr?_of_anonymous hname fun part hpart => ih part ⟨hname, hpart⟩]
      rfl

/-- Where there is an expression the descent has ended. -/
theorem acc_of_expr? {e : TypeExpr} (h : style.expr? g id = some e) :
    Acc (Function.swap (MadeOf g style)) id := by
  refine Style.expr?.partial_correctness style g
    (fun id _ => Acc (Function.swap (MadeOf g style)) id)
    (fun expr? hexpr id e hid => ⟨id, fun part hpart => ?_⟩) id e h
  rw [hpart.anonymous] at hid
  obtain ⟨parts, hparts, -⟩ := Option.bind_eq_some_iff.1 hid
  obtain ⟨pair, -, hpair⟩ := exists_of_mem_left (forall₂_of_mapM hparts) hpart.part
  obtain ⟨inner, hinner, -⟩ := Option.bind_eq_some_iff.1 hpair
  exact hexpr part inner hinner

/-! ## Parts are nodes -/

/-- Fields that shapes have in common have the types of fields of the first. -/
theorem exists_of_mem_sharedFields? {kinds : List TypeKind} {shared : List Field} {field : Field}
    (h : sharedFields? kinds = some shared) (hfield : field ∈ shared) :
    ∃ kind ∈ kinds, field.type ∈ kind.references := by
  rw [sharedFields?.eq_def] at h
  split at h
  · rename_i fields rest
    obtain ⟨others, -, rfl⟩ := Option.map_eq_some_iff.1 h
    obtain ⟨origin, horigin, hcommon⟩ := List.mem_filterMap.1 hfield
    obtain ⟨matching, -, rfl⟩ := Option.map_eq_some_iff.1 hcommon
    exact ⟨_, List.mem_cons_self, List.mem_map.2 ⟨origin, horigin, rfl⟩⟩
  · cases h

theorem exists_of_mem_memberKinds {members : List TypeId} {kind : TypeKind}
    (h : kind ∈ memberKinds g members) : ∃ member ∈ members, g.kind (g.resolve member) = kind :=
  List.mem_map.1 (List.mem_filter.1 h).1

/-- The parts of a node are nodes. -/
theorem lt_of_mem_partsOf (hg : g.Sound) (hid : id < g.size) {part : TypeId}
    (h : part ∈ partsOf g style (g.kind id)) : part < g.size := by
  have hreferences := hg.references id hid
  cases hkind : g.kind id with
  | union members =>
    rw [hkind] at h hreferences
    rw [partsOf] at h
    split at h
    · rcases List.mem_append.1 h with h | h
      · exact hreferences part h
      · obtain ⟨field, hfield, rfl⟩ := List.mem_map.1 h
        cases hshared : sharedFields? (memberKinds g members) with
        | none =>
          rw [hshared] at hfield
          cases hfield
        | some shared =>
          rw [hshared] at hfield
          obtain ⟨kind, hmem, htype⟩ := exists_of_mem_sharedFields? hshared hfield
          obtain ⟨member, hmember, rfl⟩ := exists_of_mem_memberKinds hmem
          exact hg.references _ (hg.resolveWithin_lt (hreferences member hmember) _) _ htype
    · exact hreferences part h
  | _ =>
    rw [hkind] at h hreferences
    exact hreferences part h

theorem MadeOf.lt (hg : g.Sound) {part : TypeId} (h : MadeOf g style id part) : part < g.size := by
  refine lt_of_mem_partsOf hg (Nat.lt_of_not_le fun hid => ?_) h.part
  have hpart := h.part
  rw [TypeGraph.kind_of_size_le hid] at hpart
  cases hpart

/-! ## Expressions and cycles -/

/-- **A node has an expression just if no node that it is made of is made of itself.** -/
theorem isSome_expr?_iff (hg : g.Sound) : (style.expr? g id).isSome ↔
    ∀ part, ReflTransGen (MadeOf g style) id part → ¬TransGen (MadeOf g style) part part := by
  rw [← acc_iff_no_cycle fun h => MadeOf.lt hg h]
  refine ⟨fun h => ?_, isSome_expr?_of_acc⟩
  obtain ⟨e, he⟩ := Option.isSome_iff_exists.1 h
  exact acc_of_expr? he

/-- Written as they are, all types have expressions. -/
theorem isSome_expr?_of_native (hg : Descends g) (hnative : style.widened = false)
    (hid : id < g.size) : (style.expr? g id).isSome :=
  isSome_expr?_of_depthAtMost hnative (hg.depth hid)

end TypedClient.Declaration
