import Mathlib.Data.List.Forall2

/-!
# What computations yield

A computation may fail, and what is said of its result is said only where there is one.

* `Yields m Q` says that `Q` holds of the result of `m`, if it has one;
* `Yields.bind`, `Yields.mapM` and `Yields.mapM_forall₂` are the rules for steps in a row.
-/

set_option autoImplicit false

namespace TypedClient

variable {ε α β : Type} {P Q : α → Prop}

/-- The result of a computation, if it has one, has a property. -/
def Yields (m : Except ε α) (Q : α → Prop) : Prop := ∀ a, m = .ok a → Q a

theorem yields_ok {a : α} (h : Q a) : Yields (.ok a : Except ε α) Q := by
  intro b hb
  cases hb
  exact h

theorem yields_pure {a : α} (h : Q a) : Yields (pure a : Except ε α) Q := yields_ok h

theorem yields_error (e : ε) : Yields (.error e : Except ε α) Q := by
  intro a ha
  cases ha

theorem yields_true (m : Except ε α) : Yields m fun _ => True := fun _ _ => trivial

/-- Nothing is known of the result but where it comes from. -/
theorem yields_self (m : Except ε α) : Yields m fun a => m = .ok a := fun _ h => h

theorem Yields.mono {m : Except ε α} (h : Yields m P) (hPQ : ∀ a, P a → Q a) : Yields m Q :=
  fun a ha => hPQ a (h a ha)

theorem Yields.and {m : Except ε α} (hP : Yields m P) (hQ : Yields m Q) :
    Yields m fun a => P a ∧ Q a := fun a ha => ⟨hP a ha, hQ a ha⟩

theorem Yields.bind {S : β → Prop} {m : Except ε α} {f : α → Except ε β} (h : Yields m P)
    (hf : ∀ a, P a → Yields (f a) S) : Yields (m >>= f) S := by
  cases m with
  | ok a => exact hf a (h a rfl)
  | error e => exact yields_error e

theorem Yields.map {S : β → Prop} {m : Except ε α} {f : α → β} (h : Yields m P)
    (hf : ∀ a, P a → S (f a)) : Yields (m.map f) S := by
  cases m with
  | ok a => exact yields_ok (hf a (h a rfl))
  | error e => exact yields_error e

/-- A computation that succeeds has a result. -/
theorem exists_eq_ok {m : Except ε α} (h : m.isOk = true) : ∃ a, m = .ok a := by
  cases m with
  | ok a => exact ⟨a, rfl⟩
  | error e => cases h

theorem Yields.mapM {S : β → Prop} {xs : List α} {f : α → Except ε β}
    (h : ∀ x ∈ xs, Yields (f x) S) : Yields (xs.mapM f) fun ys => ∀ y ∈ ys, S y := by
  induction xs with
  | nil => exact yields_pure (List.forall_mem_nil _)
  | cons x xs ih =>
    rw [List.mapM_cons]
    refine (h x List.mem_cons_self).bind fun y hy => ?_
    refine (ih fun z hz => h z (List.mem_cons_of_mem _ hz)).bind fun ys hys => ?_
    exact yields_pure (List.forall_mem_cons.2 ⟨hy, hys⟩)

/-- Each result of a walk has to do with the item it comes from. -/
theorem Yields.mapM_forall₂ {R : α → β → Prop} {xs : List α} {f : α → Except ε β}
    (h : ∀ x ∈ xs, Yields (f x) (R x)) : Yields (xs.mapM f) (List.Forall₂ R xs) := by
  induction xs with
  | nil => exact yields_pure .nil
  | cons x xs ih =>
    rw [List.mapM_cons]
    refine (h x List.mem_cons_self).bind fun y hy => ?_
    refine (ih fun z hz => h z (List.mem_cons_of_mem _ hz)).bind fun ys hys => ?_
    exact yields_pure (.cons hy hys)

end TypedClient
