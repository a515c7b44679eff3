import TypedClient.OpenApi.SchemaTypes
import TypedClient.Proofs.Yields

/-!
# What steps of building keep

* `Keeps I Q m` says that the step `m` keeps the property `I` of states, and that `Q` holds of its
  result, if it has one;
* `Keeps.bind`, `Keeps.mapM`, `Keeps.mapM_forall₂`, `Keeps.forM`, `Keeps.foldlM` and
  `Keeps.foldlM_prefix` are the rules for steps in a row.
-/

set_option autoImplicit false

namespace TypedClient.OpenApi

open TypedClient.Types

variable {α β : Type} {I : Building → Prop} {P Q : α → Prop}

/-- A step keeps a property of states, and its result has a property. -/
def Keeps (I : Building → Prop) (Q : α → Prop) (m : Build α) : Prop :=
  ∀ b, I b → Yields (m b) fun result => I result.2 ∧ Q result.1

theorem keeps_pure {a : α} (h : Q a) : Keeps I Q (pure a) := fun _ hb => yields_pure ⟨hb, h⟩

theorem keeps_throw (e : GenerationError) : Keeps I Q (throw e) := fun _ _ => yields_error e

theorem Keeps.mono {m : Build α} (h : Keeps I P m) (hPQ : ∀ a, P a → Q a) : Keeps I Q m :=
  fun b hb => (h b hb).mono fun _ ha => ⟨ha.1, hPQ _ ha.2⟩

theorem Keeps.and {m : Build α} (hP : Keeps I P m) (hQ : Keeps I Q m) :
    Keeps I (fun a => P a ∧ Q a) m :=
  fun b hb => ((hP b hb).and (hQ b hb)).mono fun _ h => ⟨h.1.1, h.1.2, h.2.2⟩

theorem Keeps.trivial {m : Build α} (h : Keeps I P m) : Keeps I (fun _ => True) m :=
  h.mono fun _ _ => True.intro

theorem Keeps.bind {S : β → Prop} {m : Build α} {f : α → Build β} (h : Keeps I P m)
    (hf : ∀ a, P a → Keeps I S (f a)) : Keeps I S (m >>= f) :=
  fun b hb => (h b hb).bind fun result hresult => hf result.1 hresult.2 result.2 hresult.1

theorem Keeps.map {S : β → Prop} {m : Build α} {f : α → β} (h : Keeps I P m)
    (hf : ∀ a, P a → S (f a)) : Keeps I S (f <$> m) := by
  rw [map_eq_pure_bind]
  exact h.bind fun a ha => keeps_pure (hf a ha)

/-- The state is looked at. -/
theorem keeps_get : Keeps I I (get : Build Building) := fun _ hb => yields_pure ⟨hb, hb⟩

/-- A computation that does not look at the state. -/
theorem keeps_lift {m : Except GenerationError α} (h : Yields m Q) :
    Keeps I Q (monadLift m : Build α) := by
  intro b hb
  change Yields (m >>= fun a => pure (a, b)) _
  exact h.bind fun a ha => yields_pure ⟨hb, ha⟩

theorem Keeps.mapM {S : β → Prop} {xs : List α} {f : α → Build β}
    (h : ∀ x ∈ xs, Keeps I S (f x)) : Keeps I (fun ys => ∀ y ∈ ys, S y) (xs.mapM f) := by
  induction xs with
  | nil => exact keeps_pure (List.forall_mem_nil _)
  | cons x xs ih =>
    rw [List.mapM_cons]
    refine (h x List.mem_cons_self).bind fun y hy => ?_
    refine (ih fun z hz => h z (List.mem_cons_of_mem _ hz)).bind fun ys hys => ?_
    exact keeps_pure (List.forall_mem_cons.2 ⟨hy, hys⟩)

/-- Each result of a walk has to do with the item it comes from. -/
theorem Keeps.mapM_forall₂ {R : α → β → Prop} {xs : List α} {f : α → Build β}
    (h : ∀ x ∈ xs, Keeps I (R x) (f x)) : Keeps I (List.Forall₂ R xs) (xs.mapM f) := by
  induction xs with
  | nil => exact keeps_pure .nil
  | cons x xs ih =>
    rw [List.mapM_cons]
    refine (h x List.mem_cons_self).bind fun y hy => ?_
    refine (ih fun z hz => h z (List.mem_cons_of_mem _ hz)).bind fun ys hys => ?_
    exact keeps_pure (.cons hy hys)

theorem Keeps.forM {xs : List α} {f : α → Build Unit}
    (h : ∀ x ∈ xs, Keeps I (fun _ => True) (f x)) :
    Keeps I (fun _ => True) (xs.forM f) := by
  induction xs with
  | nil => exact keeps_pure True.intro
  | cons x xs ih =>
    rw [List.forM]
    exact (h x List.mem_cons_self).bind fun _ _ => ih fun y hy => h y (List.mem_cons_of_mem _ hy)

theorem Keeps.foldlM {S : β → Prop} {xs : List α} {f : β → α → Build β}
    (h : ∀ x ∈ xs, ∀ c, S c → Keeps I S (f c x)) {c : β} (hc : S c) :
    Keeps I S (xs.foldlM f c) := by
  induction xs generalizing c with
  | nil => exact keeps_pure hc
  | cons x xs ih =>
    rw [List.foldlM_cons]
    refine (h x List.mem_cons_self c hc).bind fun d hd => ?_
    exact ih (fun y hy => h y (List.mem_cons_of_mem _ hy)) hd

/-- What is gathered step by step has to do with the items that have been taken up. -/
theorem Keeps.foldlM_prefix {S : List α → β → Prop} {f : β → α → Build β}
    (h : ∀ done x c, S done c → Keeps I (S (done ++ [x])) (f c x)) (xs : List α) {done : List α}
    {c : β} (hc : S done c) : Keeps I (S (done ++ xs)) (xs.foldlM f c) := by
  induction xs generalizing done c with
  | nil =>
    rw [List.append_nil]
    exact keeps_pure hc
  | cons x xs ih =>
    rw [List.foldlM_cons, List.append_cons]
    exact (h done x c hc).bind fun d hd => ih hd

end TypedClient.OpenApi
