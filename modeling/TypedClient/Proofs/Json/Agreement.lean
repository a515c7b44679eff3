import TypedClient.Json.Basic

/-!
# Agreement of values

`Json.agrees` is equality of values up to the sign of zero.  It is an equivalence: every value
agrees with itself (`Json.agrees_refl`), the order of the two values does not matter
(`Json.agrees_comm`), and `Json.agrees_trans` is the third law.  The same holds of lists of values.
-/

set_option autoImplicit false

namespace TypedClient.Json

open TypedClient.Number (Double)

theorem Number.agrees_comm (a b : Json.Number) : a.agrees b = b.agrees a := by
  cases a with
  | integer a =>
    cases b with
    | integer b => exact BEq.comm
    | double b => rfl
  | double a =>
    cases b with
    | integer b => rfl
    | double b =>
      simp only [Number.agrees, Double.agrees]
      rw [Bool.and_comm, decide_eq_decide.2 eq_comm]

theorem Number.agrees_refl (a : Json.Number) : a.agrees a = true := by
  cases a with
  | integer a => exact BEq.rfl
  | double a => simp [Number.agrees, Double.agrees]

theorem Number.agrees_trans {a b c : Json.Number} (hab : a.agrees b = true)
    (hbc : b.agrees c = true) : a.agrees c = true := by
  cases a <;> cases b <;> cases c <;>
    simp only [Number.agrees, Double.agrees, Bool.false_eq_true, beq_iff_eq, Bool.or_eq_true,
      Bool.and_eq_true, decide_eq_true_eq] at *
  · exact hab.trans hbc
  · -- Two zeros agree, whatever their signs, and other doubles agree with themselves only.
    rcases hab with ⟨ha, hb⟩ | rfl
    · rcases hbc with ⟨-, hc⟩ | rfl
      · exact .inl ⟨ha, hc⟩
      · exact .inl ⟨ha, hb⟩
    · exact hbc

mutual

theorem agrees_comm : ∀ a b : Json, a.agrees b = b.agrees a
  | .null, b => by cases b <;> rfl
  | .bool a, b => by
    cases b with
    | bool b => exact BEq.comm
    | _ => rfl
  | .number a, b => by
    cases b with
    | number b => exact Number.agrees_comm a b
    | _ => rfl
  | .string a, b => by
    cases b with
    | string b => exact BEq.comm
    | _ => rfl
  | .array as, b => by
    cases b with
    | array bs => exact agreesItems_comm as bs
    | _ => rfl
  | .object as, b => by
    cases b with
    | object bs => exact agreesMembers_comm as bs
    | _ => rfl

theorem agreesItems_comm : ∀ as bs : List Json, agreesItems as bs = agreesItems bs as
  | [], bs => by cases bs <;> rfl
  | a :: as, bs => by
    cases bs with
    | nil => rfl
    | cons b bs => rw [agreesItems, agreesItems, agrees_comm a b, agreesItems_comm as bs]

theorem agreesMembers_comm : ∀ as bs : List (String × Json),
    agreesMembers as bs = agreesMembers bs as
  | [], bs => by cases bs <;> rfl
  | (k, a) :: as, bs => by
    cases bs with
    | nil => rfl
    | cons b bs =>
      rw [agreesMembers, agreesMembers, agrees_comm a b.2, agreesMembers_comm as bs]
      congr 2
      exact BEq.comm

end

mutual

theorem agrees_refl : ∀ a : Json, a.agrees a = true
  | .null => rfl
  | .bool _ => BEq.rfl
  | .number n => Number.agrees_refl n
  | .string _ => BEq.rfl
  | .array items => agreesItems_refl items
  | .object members => agreesMembers_refl members

theorem agreesItems_refl : ∀ items : List Json, agreesItems items items = true
  | [] => rfl
  | item :: rest => by rw [agreesItems, agrees_refl item, agreesItems_refl rest]; rfl

theorem agreesMembers_refl : ∀ members : List (String × Json), agreesMembers members members = true
  | [] => rfl
  | (key, value) :: rest => by
    rw [agreesMembers, agrees_refl value, agreesMembers_refl rest, BEq.rfl]
    rfl

end

mutual

theorem agrees_trans : ∀ (a : Json) {b c : Json}, a.agrees b = true → b.agrees c = true →
    a.agrees c = true
  | .null, b, c, hab, hbc => by
    cases b with
    | null => exact hbc
    | _ => cases hab
  | .bool a, b, c, hab, hbc => by
    cases b with
    | bool b => rwa [beq_iff_eq.1 hab]
    | _ => cases hab
  | .number a, b, c, hab, hbc => by
    cases b with
    | number b =>
      cases c with
      | number c => exact Number.agrees_trans hab hbc
      | _ => cases hbc
    | _ => cases hab
  | .string a, b, c, hab, hbc => by
    cases b with
    | string b => rwa [beq_iff_eq.1 hab]
    | _ => cases hab
  | .array as, b, c, hab, hbc => by
    cases b with
    | array bs =>
      cases c with
      | array cs => exact agreesItems_trans as hab hbc
      | _ => cases hbc
    | _ => cases hab
  | .object as, b, c, hab, hbc => by
    cases b with
    | object bs =>
      cases c with
      | object cs => exact agreesMembers_trans as hab hbc
      | _ => cases hbc
    | _ => cases hab

theorem agreesItems_trans : ∀ (as : List Json) {bs cs : List Json}, agreesItems as bs = true →
    agreesItems bs cs = true → agreesItems as cs = true
  | [], bs, cs, hab, hbc => by
    cases bs with
    | nil => exact hbc
    | cons => cases hab
  | a :: as, bs, cs, hab, hbc => by
    cases bs with
    | nil => cases hab
    | cons b bs =>
      cases cs with
      | nil => cases hbc
      | cons c cs =>
        rw [agreesItems, Bool.and_eq_true] at *
        exact ⟨agrees_trans a hab.1 hbc.1, agreesItems_trans as hab.2 hbc.2⟩

theorem agreesMembers_trans : ∀ (as : List (String × Json)) {bs cs : List (String × Json)},
    agreesMembers as bs = true → agreesMembers bs cs = true → agreesMembers as cs = true
  | [], bs, cs, hab, hbc => by
    cases bs with
    | nil => exact hbc
    | cons => cases hab
  | (k, a) :: as, bs, cs, hab, hbc => by
    cases bs with
    | nil => cases hab
    | cons b bs =>
      cases cs with
      | nil => cases hbc
      | cons c cs =>
        rw [agreesMembers, Bool.and_eq_true, Bool.and_eq_true, beq_iff_eq] at *
        exact ⟨⟨hab.1.1.trans hbc.1.1, agrees_trans a hab.1.2 hbc.1.2⟩,
          agreesMembers_trans as hab.2 hbc.2⟩

end

/-- Of two lists that agree, each has a value that agrees with the given one, or neither has. -/
theorem exists_agrees_of_agreesItems {as bs : List Json} (h : agreesItems as bs = true)
    {value : Json} (ha : ∃ a ∈ as, a.agrees value = true) : ∃ b ∈ bs, b.agrees value = true := by
  induction as generalizing bs with
  | nil => obtain ⟨a, ha, -⟩ := ha; cases ha
  | cons first as ih =>
    cases bs with
    | nil => cases h
    | cons second bs =>
      rw [agreesItems, Bool.and_eq_true] at h
      obtain ⟨a, ha, hvalue⟩ := ha
      rcases List.mem_cons.1 ha with rfl | ha
      · rw [agrees_comm] at h
        exact ⟨second, List.mem_cons_self, agrees_trans second h.1 hvalue⟩
      · obtain ⟨b, hb, hagrees⟩ := ih h.2 ⟨a, ha, hvalue⟩
        exact ⟨b, List.mem_cons_of_mem _ hb, hagrees⟩

end TypedClient.Json
