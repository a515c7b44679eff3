import Mathlib.Data.List.DropRight
import Mathlib.Tactic.IntervalCases
import TypedClient.Number.Layout

/-!
# Decimal digits

What the digits of a number say about it: how many there are, what the first one is, and which
number is left when the zeros at the end are taken away.
-/

set_option autoImplicit false

namespace TypedClient.Number

/-! ## Natural numbers -/

/-- A number that is not zero is at least the power of ten of its first digit. -/
theorem pow_length_toDigits_le {n : Nat} (hn : 0 < n) :
    10 ^ ((Nat.toDigits 10 n).length - 1) ≤ n := by
  rcases Nat.eq_zero_or_pos ((Nat.toDigits 10 n).length - 1) with hzero | hpos
  · rw [hzero]
    exact hn
  · refine Nat.le_of_not_lt fun hlt => ?_
    have := (Nat.length_toDigits_le_iff (by decide) hpos).2 hlt
    omega

/-- A number is less than the power of ten of the number of its digits. -/
theorem lt_pow_length_toDigits (n : Nat) : n < 10 ^ (Nat.toDigits 10 n).length :=
  (Nat.length_toDigits_le_iff (by decide) Nat.length_toDigits_pos).1 (Nat.le_refl _)

/-- The digits of a number that is not zero do not start with a zero. -/
theorem head?_toDigits {n : Nat} (hn : 0 < n) : (Nat.toDigits 10 n).head? ≠ some '0' := by
  induction n using Nat.strongRecOn with
  | ind n ih =>
    rcases Nat.lt_or_ge n 10 with hlt | hge
    · rw [Nat.toDigits_of_lt_base hlt]
      intro h
      have hzero := Nat.digitChar_eq_zero.1 (Option.some.inj h)
      omega
    · obtain ⟨first, rest, hfirst⟩ :=
        List.exists_cons_of_ne_nil (Nat.toDigits_ne_nil (n := n / 10) (b := 10))
      have hhead := ih (n / 10) (by omega) (by omega)
      rw [Nat.toDigits_of_base_le (by decide) hge]
      rw [hfirst] at hhead ⊢
      exact hhead

/-- Digits that are written after a number scale it. -/
theorem mul_pow_le_ofDigitChars (cs : List Char) (n : Nat) :
    n * 10 ^ cs.length ≤ Nat.ofDigitChars 10 cs n := by
  induction cs generalizing n with
  | nil => simp
  | cons c cs ih =>
    rw [Nat.ofDigitChars_cons, List.length_cons, Nat.pow_succ']
    refine le_trans ?_ (ih _)
    rw [← Nat.mul_assoc]
    exact Nat.mul_le_mul_right _ (by omega)

/-- More digits make a number greater. -/
theorem le_ofDigitChars (cs : List Char) (n : Nat) : n ≤ Nat.ofDigitChars 10 cs n :=
  Nat.le_trans (Nat.le_mul_of_pos_right n (Nat.pow_pos (by decide))) (mul_pow_le_ofDigitChars cs n)

/-! ## Characters -/

theorem toNat_of_isDigit {c : Char} (hc : c.isDigit = true) : 48 ≤ c.toNat ∧ c.toNat ≤ 57 := by
  simpa [Char.isDigit, UInt32.le_iff_toNat_le] using hc

theorem digitChar_toNat {c : Char} (hc : c.isDigit = true) :
    Nat.digitChar (c.toNat - '0'.toNat) = c := by
  obtain ⟨hlow, hhigh⟩ := toNat_of_isDigit hc
  rw [← Char.ofNat_toNat c]
  interval_cases c.toNat <;> rfl

theorem digit_lt_ten {c : Char} (hc : c.isDigit = true) : c.toNat - '0'.toNat < 10 := by
  have hzero : '0'.toNat = 48 := rfl
  have := toNat_of_isDigit hc
  omega

/-- A number of few digits is small. -/
theorem ofDigitChars_lt {cs : List Char} (h : ∀ c ∈ cs, c.isDigit = true) (n : Nat) :
    Nat.ofDigitChars 10 cs n < (n + 1) * 10 ^ cs.length := by
  induction cs generalizing n with
  | nil => simp
  | cons c cs ih =>
    obtain ⟨hc, hcs⟩ := List.forall_mem_cons.1 h
    have hdigit := digit_lt_ten hc
    rw [Nat.ofDigitChars_cons, List.length_cons, Nat.pow_succ', ← Nat.mul_assoc]
    exact Nat.lt_of_lt_of_le (ih hcs _) (Nat.mul_le_mul_right _ (by omega))

/-- The digits of a number are its significant digits and zeros. -/
theorem toDigits_significantDigits (n : Nat) : ∃ zeros, Nat.toDigits 10 n
    = (significantDigits n).map Nat.digitChar ++ List.replicate zeros '0' := by
  let values := (Nat.toDigits 10 n).map fun c => c.toNat - '0'.toNat
  have hvalues : Nat.toDigits 10 n = values.map Nat.digitChar := by
    rw [List.map_map]
    refine (List.map_id _).symm.trans (List.map_congr_left fun c hc => (digitChar_toNat ?_).symm)
    exact Nat.isDigit_of_mem_toDigits (by decide) (by decide) hc
  have hzeros : values.rtakeWhile (· == 0) = List.replicate (values.rtakeWhile (· == 0)).length 0 :=
    List.eq_replicate_length.2 fun digit h => by simpa using List.mem_rtakeWhile_imp h
  have hsplit : values = significantDigits n ++ values.rtakeWhile (· == 0) :=
    List.rdropWhile_append_rtakeWhile.symm
  refine ⟨(values.rtakeWhile (· == 0)).length, ?_⟩
  rw [hvalues]
  nth_rewrite 1 [hsplit]
  rw [hzeros, List.map_append, List.map_replicate, List.length_replicate]
  rfl

/-- The digits of a decimal are digits in base ten. -/
theorem lt_ten_of_mem_significantDigits {n digit : Nat} (h : digit ∈ significantDigits n) :
    digit < 10 := by
  have hmem := (List.dropWhile_suffix _).mem (List.mem_reverse.1 h)
  obtain ⟨c, hc, rfl⟩ := List.mem_map.1 (List.mem_reverse.1 hmem)
  exact digit_lt_ten (Nat.isDigit_of_mem_toDigits (by decide) (by decide) hc)

theorem lt_ten_of_mem_shortest (d : Double) : ∀ n ∈ d.shortest.digits, n < 10 :=
  fun _ h => lt_ten_of_mem_significantDigits h

theorem isDigit_of_mem_digitText {ds : List Nat} (h : ∀ n ∈ ds, n < 10) :
    ∀ c ∈ (DecimalLayout.digitText ds).toList, c.isDigit = true := by
  intro c hc
  rw [DecimalLayout.digitText, String.toList_ofList, List.mem_map] at hc
  obtain ⟨n, hn, rfl⟩ := hc
  simp [Nat.isDigit_digitChar, h n hn]

theorem isDigit_of_mem_zeros (n : Nat) :
    ∀ c ∈ (DecimalLayout.zeros n).toList, c.isDigit = true := by
  intro c hc
  rw [DecimalLayout.zeros, String.toList_ofList] at hc
  rw [List.eq_of_mem_replicate hc]
  rfl

end TypedClient.Number
