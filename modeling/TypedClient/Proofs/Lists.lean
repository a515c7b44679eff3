import Mathlib.Data.List.Forall2

/-!
# Lists related item by item

Fields, members and schemas come in lists, and what is shown of them is shown of two lists side by
side.  These are the few facts about `List.Forall₂` that the other files need, that what walks a
list depends on the items of the list only, what the items of a changed list are, and where a walk
over a list fails.
-/

set_option autoImplicit false

namespace TypedClient

variable {α β : Type} {R S : α → β → Prop} {as : List α} {bs : List β}

theorem forall₂_mono (h : List.Forall₂ R as bs) (himp : ∀ a ∈ as, ∀ b ∈ bs, R a b → S a b) :
    List.Forall₂ S as bs := by
  induction h with
  | nil => exact .nil
  | cons hab _ ih =>
    refine .cons (himp _ List.mem_cons_self _ List.mem_cons_self hab) (ih fun a ha b hb => ?_)
    exact himp a (List.mem_cons_of_mem _ ha) b (List.mem_cons_of_mem _ hb)

theorem forall₂_trans {γ : Type} {S : β → γ → Prop} {T : α → γ → Prop} {cs : List γ}
    (hab : List.Forall₂ R as bs) (hbc : List.Forall₂ S bs cs)
    (himp : ∀ a b c, R a b → S b c → T a c) : List.Forall₂ T as cs := by
  induction hab generalizing cs with
  | nil => cases hbc; exact .nil
  | cons hab _ ih =>
    cases hbc with
    | cons hbc hrest => exact .cons (himp _ _ _ hab hbc) (ih hrest)

theorem forall₂_right {p : β → Prop} (h : List.Forall₂ R as bs)
    (hp : ∀ a ∈ as, ∀ b, R a b → p b) : ∀ b ∈ bs, p b := by
  induction h with
  | nil => simp
  | cons hab _ ih =>
    refine List.forall_mem_cons.2 ⟨hp _ List.mem_cons_self _ hab, ih fun a ha => ?_⟩
    exact hp a (List.mem_cons_of_mem _ ha)

/-- How items on the left stand to later ones passes to the right. -/
theorem pairwise_of_forall₂ {P : α → α → Prop} {Q : β → β → Prop} (h : List.Forall₂ R as bs)
    (hP : as.Pairwise P) (himp : ∀ a a' b b', R a b → R a' b' → P a a' → Q b b') :
    bs.Pairwise Q := by
  induction h with
  | nil => exact .nil
  | @cons a b as bs hab hrest ih =>
    obtain ⟨hfirst, hP⟩ := List.pairwise_cons.1 hP
    refine List.pairwise_cons.2 ⟨?_, ih hP⟩
    exact forall₂_right hrest fun a' ha' b' hab' => himp a a' b b' hab hab' (hfirst a' ha')

/-- Items that all have a partner make a list of partners. -/
theorem exists_forall₂ (h : ∀ a ∈ as, ∃ b, R a b) : ∃ bs, List.Forall₂ R as bs := by
  induction as with
  | nil => exact ⟨[], .nil⟩
  | cons a as ih =>
    obtain ⟨b, hb⟩ := h a List.mem_cons_self
    obtain ⟨bs, hbs⟩ := ih fun x hx => h x (List.mem_cons_of_mem _ hx)
    exact ⟨b :: bs, .cons hb hbs⟩

/-- Every item on the right has a partner on the left. -/
theorem exists_of_mem_right (h : List.Forall₂ R as bs) {b : β} (hb : b ∈ bs) : ∃ a ∈ as, R a b := by
  induction h with
  | nil => cases hb
  | cons hab _ ih =>
    rcases List.mem_cons.1 hb with rfl | hb
    · exact ⟨_, List.mem_cons_self, hab⟩
    · obtain ⟨a, ha, hab⟩ := ih hb
      exact ⟨a, List.mem_cons_of_mem _ ha, hab⟩

/-- Every item on the left has a partner on the right. -/
theorem exists_of_mem_left (h : List.Forall₂ R as bs) {a : α} (ha : a ∈ as) : ∃ b ∈ bs, R a b :=
  exists_of_mem_right h.flip ha

/-- What holds of the pairs of related items holds of all that pairing gives. -/
theorem forall_mem_zipWith {γ : Type} {f : α → β → γ} {p : γ → Prop} (h : List.Forall₂ R as bs)
    (hp : ∀ a b, R a b → p (f a b)) : ∀ c ∈ as.zipWith f bs, p c := by
  induction h with
  | nil => exact List.forall_mem_nil _
  | cons hab _ ih => exact List.forall_mem_cons.2 ⟨hp _ _ hab, ih⟩

/-! ## Walks of one list -/

theorem findSome?_congr {α β : Type} {f f' : α → Option β} {xs : List α}
    (h : ∀ x ∈ xs, f x = f' x) : xs.findSome? f = xs.findSome? f' := by
  induction xs with
  | nil => rfl
  | cons x xs ih =>
    rw [List.findSome?_cons, List.findSome?_cons, h x List.mem_cons_self,
      ih fun y hy => h y (List.mem_cons_of_mem _ hy)]

/-- A walk on which every step succeeds gives the results in order. -/
theorem mapM_of_forall_eq_some {α β : Type} {f : α → Option β} {f' : α → β} {xs : List α}
    (h : ∀ x ∈ xs, f x = some (f' x)) : xs.mapM f = some (xs.map f') := by
  induction xs with
  | nil => rfl
  | cons x xs ih =>
    rw [List.mapM_cons, h x List.mem_cons_self, ih fun y hy => h y (List.mem_cons_of_mem _ hy)]
    rfl

/-- On a walk that succeeds every step does, with a result of its own. -/
theorem forall₂_of_mapM {α β : Type} {f : α → Option β} {xs : List α} {ys : List β}
    (h : xs.mapM f = some ys) : List.Forall₂ (fun x y => f x = some y) xs ys := by
  induction xs generalizing ys with
  | nil =>
    cases h
    exact .nil
  | cons x xs ih =>
    rw [List.mapM_cons] at h
    obtain ⟨y, hy, h⟩ := Option.bind_eq_some_iff.1 h
    obtain ⟨zs, hzs, h⟩ := Option.bind_eq_some_iff.1 h
    cases h
    exact .cons hy (ih hzs)

/-- An item of a list with one more behind it. -/
theorem getElem?_concat_cases {α : Type} {xs : List α} {new x : α} {i : Nat}
    (h : (xs ++ [new])[i]? = some x) : i = xs.length ∧ x = new ∨ xs[i]? = some x := by
  rcases Nat.lt_or_ge i xs.length with hlt | hge
  · exact .inr (by rwa [List.getElem?_append_left hlt] at h)
  · rw [List.getElem?_append_right hge, List.getElem?_singleton] at h
    split at h
    · exact .inl ⟨by omega, (Option.some.inj h).symm⟩
    · cases h

/-- An item of a list one of whose items is replaced. -/
theorem getElem?_set_cases {α : Type} {xs : List α} {new x : α} {i j : Nat}
    (h : (xs.set i new)[j]? = some x) : j = i ∧ x = new ∨ j ≠ i ∧ xs[j]? = some x := by
  rw [List.getElem?_set] at h
  split at h
  · split at h
    · exact .inl ⟨Eq.symm ‹i = j›, (Option.some.inj h).symm⟩
    · cases h
  · exact .inr ⟨Ne.symm ‹_›, h⟩

theorem foldlM_congr {m : Type → Type} [Monad m] {α β : Type} {f f' : β → α → m β} {xs : List α}
    (h : ∀ x ∈ xs, ∀ b, f b x = f' b x) (b : β) : xs.foldlM f b = xs.foldlM f' b := by
  induction xs generalizing b with
  | nil => rfl
  | cons x xs ih =>
    rw [List.foldlM_cons, List.foldlM_cons, h x List.mem_cons_self]
    exact bind_congr fun c => ih (fun y hy => h y (List.mem_cons_of_mem _ hy)) c

/-- Steps in a row end at the first that fails. -/
theorem forM_eq_error {α ε : Type} {l : List α} {f : α → Except ε Unit} {e : ε} :
    l.forM f = .error e ↔ ∃ before a after, l = before ++ a :: after ∧
      (∀ earlier ∈ before, f earlier = .ok ()) ∧ f a = .error e := by
  induction l with
  | nil => exact iff_of_false (fun h => nomatch h) (by simp)
  | cons a l ih =>
    rw [List.forM_eq_forM, List.forM_cons]
    cases ha : f a with
    | error e' =>
      constructor
      · intro h
        cases h
        exact ⟨[], a, l, rfl, by simp, ha⟩
      · rintro ⟨before, b, after, heq, hbefore, hb⟩
        cases before with
        | nil =>
          cases heq
          exact ha.symm.trans hb
        | cons c before =>
          cases heq
          rw [hbefore a List.mem_cons_self] at ha
          cases ha
    | ok u =>
      refine Iff.trans ih ⟨?_, ?_⟩
      · rintro ⟨before, b, after, rfl, hbefore, hb⟩
        exact ⟨a :: before, b, after, rfl, List.forall_mem_cons.2 ⟨ha, hbefore⟩, hb⟩
      · rintro ⟨before, b, after, heq, hbefore, hb⟩
        cases before with
        | nil =>
          cases heq
          rw [ha] at hb
          cases hb
        | cons c before =>
          cases heq
          exact ⟨before, b, after, rfl, (List.forall_mem_cons.1 hbefore).2, hb⟩

end TypedClient
