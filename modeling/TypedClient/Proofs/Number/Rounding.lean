import Mathlib.Algebra.Order.Field.Power
import Mathlib.Algebra.Order.Ring.Abs
import Mathlib.Data.Nat.Cast.Order.Field
import Mathlib.Tactic.FieldSimp
import Mathlib.Tactic.Linarith
import Mathlib.Tactic.Positivity
import Mathlib.Tactic.Ring
import TypedClient.Number.Double

/-!
# Rounding to doubles

The double that a number is rounded to exists as long as the number is below `overflow`, half a step
beyond the largest double, and it is at most half a step away from the number (`exists_nearest?`).

* `Double.magnitude` is the number that a double stands for, without its sign;
* `Rounds` says that a coefficient is what a number is rounded to at some exponent;
* `rounded_spec` says that at one of the exponents that are tried the coefficient is canonical.
-/

set_option autoImplicit false

namespace TypedClient.Number

/-- The number that the double stands for, without its sign. -/
def Double.magnitude (d : Double) : ℚ := d.coefficient * 2 ^ d.exponent

/-- The least number that is too great to be rounded to a double. -/
def overflow : ℚ := (2 ^ 53 - 1 / 2) * 2 ^ greatestExponent

theorem overflow_pos : 0 < overflow := mul_pos (by norm_num) (zpow_pos two_pos _)

namespace Double

/-! ## Rounding to integers -/

theorem roundHalfEven_error (num : Nat) {den : Nat} (hden : 0 < den) :
    |(roundHalfEven num den : ℚ) - num / den| ≤ 1 / 2 := by
  have hden' : (0 : ℚ) < den := Nat.cast_pos.2 hden
  have hdivision : (num : ℚ) / den = (num / den : Nat) + (num % den : Nat) / den := by
    rw [eq_comm, ← sub_eq_zero]
    have hnum : (num : ℚ) = den * (num / den : Nat) + (num % den : Nat) := by
      exact_mod_cast (Nat.div_add_mod num den).symm
    rw [hnum]
    field_simp
    ring
  have hhalf (hle : 2 * (num % den) ≤ den) : ((num % den : Nat) : ℚ) / den ≤ 1 / 2 := by
    have hle' : 2 * ((num % den : Nat) : ℚ) ≤ den := by exact_mod_cast hle
    rw [div_le_div_iff₀ hden' two_pos]
    linarith
  have hbeyond (hle : den ≤ 2 * (num % den)) : 1 / 2 ≤ ((num % den : Nat) : ℚ) / den := by
    have hle' : (den : ℚ) ≤ 2 * ((num % den : Nat) : ℚ) := by exact_mod_cast hle
    rw [div_le_div_iff₀ two_pos hden']
    linarith
  have hlt : ((num % den : Nat) : ℚ) / den < 1 := by
    rw [div_lt_one hden']
    exact_mod_cast Nat.mod_lt num hden
  have hnonneg : 0 ≤ ((num % den : Nat) : ℚ) / den := by positivity
  have hdown (hle : 2 * (num % den) ≤ den) :
      |((num / den : Nat) : ℚ) - num / den| ≤ 1 / 2 := by
    have := hhalf hle
    rw [hdivision, abs_le]
    constructor <;> linarith
  have hup (hle : den ≤ 2 * (num % den)) :
      |((num / den + 1 : Nat) : ℚ) - num / den| ≤ 1 / 2 := by
    have := hbeyond hle
    rw [hdivision, abs_le, Nat.cast_add, Nat.cast_one]
    constructor <;> linarith
  rw [roundHalfEven]
  split
  · exact hdown (by omega)
  · split
    · exact hup (by omega)
    · split
      · exact hdown (by omega)
      · exact hup (by omega)

/-- The number is rounded to the coefficient at the exponent. -/
def Rounds (x : ℚ) (coefficient : Nat) (exponent : Int) : Prop :=
  |(coefficient : ℚ) - x / 2 ^ exponent| ≤ 1 / 2

theorem rounds_scaledRound (num : Nat) {den : Nat} (hden : 0 < den) (scale exponent : Int) :
    Rounds (num / den * 2 ^ scale) (scaledRound num den (scale - exponent)) exponent := by
  have hshift : (num : ℚ) / den * 2 ^ scale / 2 ^ exponent =
      num / den * 2 ^ (scale - exponent) := by
    rw [zpow_sub₀ two_ne_zero, mul_div_assoc]
  rw [Rounds, hshift, scaledRound]
  generalize scale - exponent = shift
  split
  · rename_i hnonneg
    have hpower : (2 : ℚ) ^ shift = (twoTo shift.toNat : Nat) := by
      rw [twoTo, Nat.pow_eq, Nat.cast_pow, ← zpow_natCast, Int.toNat_of_nonneg hnonneg]
      rfl
    rw [hpower, div_mul_eq_mul_div, ← Nat.cast_mul]
    exact roundHalfEven_error _ hden
  · rename_i hneg
    have hpower : (2 : ℚ) ^ shift = ((twoTo (-shift).toNat : Nat) : ℚ)⁻¹ := by
      rw [twoTo, Nat.pow_eq, Nat.cast_pow, ← zpow_natCast, Int.toNat_of_nonneg (by omega), zpow_neg,
        inv_inv]
      rfl
    rw [hpower, ← div_eq_mul_inv, div_div, ← Nat.cast_mul]
    exact roundHalfEven_error _ (Nat.mul_pos hden (Nat.two_pow_pos _))

/-! ## Exponents -/

variable {x : ℚ} {coefficient : Nat} {exponent : Int}

theorem two_zpow_pos (exponent : Int) : (0 : ℚ) < 2 ^ exponent := zpow_pos two_pos exponent

/-- What is rounded to many bits is great. -/
theorem Rounds.le_of_bits (h : Rounds x coefficient exponent) (hbits : twoTo 53 ≤ coefficient) :
    (2 ^ 53 - 1 / 2) * 2 ^ exponent ≤ x := by
  have hbits' : (2 ^ 53 : ℚ) ≤ coefficient := by exact_mod_cast hbits
  rw [← le_div_iff₀ (two_zpow_pos exponent)]
  linarith [(abs_le.1 h).2]

/-- What is great is rounded to many bits. -/
theorem Rounds.bits_of_le (h : Rounds x coefficient exponent)
    (hle : (2 ^ 52 - 1 / 4) * 2 ^ exponent ≤ x) : twoTo 52 ≤ coefficient := by
  rw [← le_div_iff₀ (two_zpow_pos exponent)] at hle
  have hround := (abs_le.1 h).1
  have hlt : (2 ^ 52 - 1 : ℚ) < coefficient := by linarith
  have hlt' : (2 ^ 52 : ℚ) < (coefficient + 1 : Nat) := by
    rw [Nat.cast_add, Nat.cast_one]
    linarith
  exact Nat.le_of_lt_succ (by exact_mod_cast hlt')

/-- What is small is rounded to few bits. -/
theorem Rounds.bits_of_lt (h : Rounds x coefficient exponent) (hlt : x < 2 ^ 52 * 2 ^ exponent) :
    coefficient < twoTo 53 := by
  rw [← div_lt_iff₀ (two_zpow_pos exponent)] at hlt
  have hround := (abs_le.1 h).2
  have hcoefficient : (coefficient : ℚ) < 2 ^ 53 := by linarith
  exact_mod_cast hcoefficient

/-- A number below the overflow has no great exponent. -/
theorem lt_greatestExponent (hx : x < overflow) (hle : (2 ^ 53 - 1 / 2) * 2 ^ exponent ≤ x) :
    exponent < greatestExponent := by
  have hlt := lt_of_le_of_lt hle hx
  rw [overflow] at hlt
  exact (zpow_lt_zpow_iff_right₀ one_lt_two).1 (lt_of_mul_lt_mul_left hlt (by norm_num))

theorem le_greatestExponent (hx : x < overflow) (hlt : 2 ^ 52 * 2 ^ exponent < x) :
    exponent ≤ greatestExponent := by
  have hstep : overflow < 2 ^ 52 * 2 ^ (greatestExponent + 1) := by
    rw [overflow, zpow_add_one₀ two_ne_zero]
    linarith [two_zpow_pos greatestExponent]
  have hpower := lt_of_mul_lt_mul_left ((hlt.trans hx).trans hstep) (by positivity)
  exact Int.lt_add_one_iff.1 ((zpow_lt_zpow_iff_right₀ one_lt_two).1 hpower)

/-- A number lies between powers of two that tell its exponent. -/
theorem trialExponent_spec {num den : Nat} (hnum : num ≠ 0) (hden : 0 < den) (scale : Int) :
    (num / den * 2 ^ scale : ℚ) < 2 ^ 54 * 2 ^ trialExponent num den scale ∧
      (trialExponent num den scale = leastExponent ∨
        (2 ^ 52 * 2 ^ trialExponent num den scale : ℚ) < num / den * 2 ^ scale) := by
  have hnum' : (0 : ℚ) < num := Nat.cast_pos.2 (Nat.pos_of_ne_zero hnum)
  have hden' : (0 : ℚ) < den := Nat.cast_pos.2 hden
  have hnumLow : (2 : ℚ) ^ num.log2 ≤ num := by exact_mod_cast Nat.log2_self_le hnum
  have hnumHigh : (num : ℚ) < 2 ^ (num.log2 + 1) := by exact_mod_cast Nat.lt_log2_self
  have hdenLow : (2 : ℚ) ^ den.log2 ≤ den := by exact_mod_cast Nat.log2_self_le hden.ne'
  have hdenHigh : (den : ℚ) < 2 ^ (den.log2 + 1) := by exact_mod_cast Nat.lt_log2_self
  have hquotient (a b : Nat) : (2 : ℚ) ^ a / 2 ^ b * 2 ^ scale = 2 ^ ((a : Int) - b + scale) := by
    rw [zpow_add₀ two_ne_zero, zpow_sub₀ two_ne_zero, zpow_natCast, zpow_natCast]
  have hhigh : (num / den * 2 ^ scale : ℚ) < 2 ^ ((num.log2 : Int) - den.log2 + scale + 1) := by
    refine lt_of_lt_of_eq (mul_lt_mul_of_pos_right
      (div_lt_div₀ hnumHigh hdenLow (by positivity) (by positivity)) (two_zpow_pos scale)) ?_
    rw [hquotient]
    congr 1
    push_cast
    ring
  have hlow : 2 ^ ((num.log2 : Int) - den.log2 + scale - 1) < (num / den * 2 ^ scale : ℚ) := by
    refine lt_of_eq_of_lt ?_ (mul_lt_mul_of_pos_right
      (div_lt_div₀' hnumLow hdenHigh hnum' hden') (two_zpow_pos scale))
    rw [hquotient]
    congr 1
    push_cast
    ring
  have hjoin (n : Nat) : (2 ^ n * 2 ^ trialExponent num den scale : ℚ)
      = 2 ^ ((n : Int) + trialExponent num den scale) := by
    rw [zpow_add₀ two_ne_zero, zpow_natCast]
  rw [hjoin, hjoin, trialExponent]
  refine ⟨lt_of_lt_of_le hhigh (zpow_le_zpow_right₀ one_le_two (by omega)), ?_⟩
  rcases le_total ((num.log2 : Int) - den.log2 + scale - 53) leastExponent with hle | hle
  · exact .inl (max_eq_left hle)
  · refine .inr (lt_of_eq_of_lt ?_ hlow)
    rw [max_eq_right hle]
    congr 1
    omega

/-- The coefficient and the exponent that a number is rounded to. -/
def rounded (num den : Nat) (scale : Int) : Nat × Int :=
  let low := trialExponent num den scale
  let first := scaledRound num den (scale - low)
  if first < twoTo 53 then (first, low)
  else
    let second := scaledRound num den (scale - (low + 1))
    if second < twoTo 53 then (second, low + 1)
    else (scaledRound num den (scale - (low + 2)), low + 2)

theorem rounded_spec {num den : Nat} (hnum : num ≠ 0) (hden : 0 < den) {scale : Int}
    (h : (num / den * 2 ^ scale : ℚ) < overflow) :
    Rounds (num / den * 2 ^ scale) (rounded num den scale).1 (rounded num den scale).2 ∧
      IsCanonical (rounded num den scale).1 (rounded num den scale).2 := by
  obtain ⟨hhigh, hlow⟩ := trialExponent_spec hnum hden scale
  have hrounds := rounds_scaledRound num hden scale
  have hleast : leastExponent ≤ trialExponent num den scale := le_max_left _ _
  rw [rounded]
  generalize trialExponent num den scale = low at *
  generalize (num / den * 2 ^ scale : ℚ) = x at *
  dsimp only
  split
  · rename_i hbits
    rcases hlow with rfl | hlow
    · have hrange : leastExponent ≤ greatestExponent := by decide
      exact ⟨hrounds _, hbits, hleast, hrange, .inr rfl⟩
    · refine ⟨hrounds low, hbits, hleast, le_greatestExponent h hlow,
        .inl ((hrounds low).bits_of_le ?_)⟩
      linarith [two_zpow_pos low]
  · rename_i hbits
    have hfirst := (hrounds low).le_of_bits (Nat.le_of_not_lt hbits)
    have hlt := lt_greatestExponent h hfirst
    split
    · rename_i hbits'
      refine ⟨hrounds _, hbits', by omega, by omega, .inl ((hrounds _).bits_of_le ?_)⟩
      rw [zpow_add_one₀ two_ne_zero]
      linarith [two_zpow_pos low]
    · rename_i hbits'
      have hsecond := (hrounds _).le_of_bits (Nat.le_of_not_lt hbits')
      have hlt' := lt_greatestExponent h hsecond
      have htwo : (2 : ℚ) ^ (low + 2) = 2 ^ low * 4 := by
        rw [zpow_add₀ two_ne_zero]
        norm_num
      refine ⟨hrounds _, (hrounds _).bits_of_lt ?_, by omega, by omega,
        .inl ((hrounds _).bits_of_le ?_)⟩
      · rw [htwo]
        linarith
      · rw [zpow_add_one₀ two_ne_zero] at hsecond
        rw [htwo]
        linarith

theorem Rounds.error {d : Double} (h : Rounds x d.coefficient d.exponent) :
    |d.magnitude - x| ≤ 2 ^ d.exponent / 2 := by
  have hpos := two_zpow_pos d.exponent
  have hscaled : d.magnitude - x = (d.coefficient - x / 2 ^ d.exponent) * 2 ^ d.exponent := by
    rw [magnitude]
    field_simp
  rw [hscaled, abs_mul, abs_of_pos hpos]
  exact le_of_le_of_eq (mul_le_mul_of_nonneg_right h hpos.le) (one_div_mul_eq_div _ _)

/-- **A number below the overflow is rounded to a double**, which is half a step away at most. -/
theorem exists_nearest? (negative : Bool) (num : Nat) {den : Nat} (hden : 0 < den) {scale : Int}
    (h : (num / den * 2 ^ scale : ℚ) < overflow) :
    ∃ d, nearest? negative num den scale = some d ∧
      |d.magnitude - num / den * 2 ^ scale| ≤ 2 ^ d.exponent / 2 := by
  rw [nearest?]
  split
  · rename_i hnum
    refine ⟨_, rfl, ?_⟩
    rw [hnum, magnitude, zero, Nat.cast_zero, zero_mul, zero_div, zero_mul, sub_zero, abs_zero]
    exact div_nonneg (two_zpow_pos _).le two_pos.le
  · rename_i hnum
    obtain ⟨hrounds, hcanonical⟩ := rounded_spec hnum hden h
    refine ⟨⟨negative, _, _, hcanonical⟩, ?_, Rounds.error hrounds⟩
    exact dif_pos hcanonical

/-- Half a step is little in relation to a number that is not small. -/
theorem relative_error {d : Double} (hx : 1 ≤ x) (h : |d.magnitude - x| ≤ 2 ^ d.exponent / 2) :
    |d.magnitude - x| ≤ x / 2 ^ 52 := by
  refine h.trans ?_
  have hpos := two_zpow_pos d.exponent
  rcases d.canonical.2.2.2 with hbits | hleast
  · have hbits' : (2 ^ 52 : ℚ) ≤ d.coefficient := by exact_mod_cast hbits
    have hstep : 2 ^ 52 * 2 ^ d.exponent ≤ d.magnitude := mul_le_mul_of_nonneg_right hbits' hpos.le
    have hnear := (abs_le.1 h).2
    linarith
  · have hsmall : (2 ^ d.exponent : ℚ) ≤ 2 ^ (-52 : Int) := by
      rw [hleast]
      exact zpow_le_zpow_right₀ one_le_two (by decide)
    rw [zpow_neg] at hsmall
    norm_num at hsmall ⊢
    linarith

theorem magnitude_nonneg (d : Double) : 0 ≤ d.magnitude :=
  mul_nonneg (Nat.cast_nonneg _) (two_zpow_pos _).le

/-- A double is less than what is too great for one. -/
theorem magnitude_lt_overflow (d : Double) : d.magnitude < overflow := by
  obtain ⟨hbits, -, hexponent, -⟩ := d.canonical
  have hbits' : (d.coefficient : ℚ) ≤ 2 ^ 53 - 1 := by
    have hle : ((d.coefficient + 1 : Nat) : ℚ) ≤ 2 ^ 53 := by exact_mod_cast Nat.succ_le_of_lt hbits
    rw [Nat.cast_add, Nat.cast_one] at hle
    linarith
  have hpower : (2 ^ d.exponent : ℚ) ≤ 2 ^ greatestExponent :=
    zpow_le_zpow_right₀ one_le_two hexponent
  have hpos := two_zpow_pos greatestExponent
  rw [magnitude, overflow]
  calc (d.coefficient * 2 ^ d.exponent : ℚ)
      ≤ (2 ^ 53 - 1) * 2 ^ greatestExponent :=
        mul_le_mul hbits' hpower (two_zpow_pos _).le (by norm_num)
    _ < (2 ^ 53 - 1 / 2) * 2 ^ greatestExponent := mul_lt_mul_of_pos_right (by norm_num) hpos

/-! ## Operations -/

/-- A natural number below the overflow is rounded to a double near to it. -/
theorem exists_ofNat? {n : Nat} (hn : 0 < n) (h : (n : ℚ) < overflow) :
    ∃ d, ofNat? n = some d ∧ |d.magnitude - n| ≤ n / 2 ^ 52 := by
  have hvalue : (n / (1 : Nat) * 2 ^ (0 : Int) : ℚ) = n := by simp
  obtain ⟨d, hd, herror⟩ := exists_nearest? false n Nat.one_pos (hvalue.trans_lt h)
  rw [hvalue] at herror
  exact ⟨d, hd, relative_error (Nat.one_le_cast.2 hn) herror⟩

theorem exists_mul? {a b : Double} (h : a.magnitude * b.magnitude < overflow) :
    ∃ d, a.mul? b = some d := by
  have hvalue :
      ((a.coefficient * b.coefficient : Nat) / (1 : Nat) * 2 ^ (a.exponent + b.exponent) : ℚ) =
        a.magnitude * b.magnitude := by
    rw [magnitude, magnitude, zpow_add₀ two_ne_zero]
    push_cast
    ring
  obtain ⟨d, hd, -⟩ := exists_nearest? (a.negative != b.negative) _ Nat.one_pos (hvalue.trans_lt h)
  exact ⟨d, hd⟩

theorem exists_div? {a b : Double} (hb : 0 < b.coefficient)
    (h : a.magnitude / b.magnitude < overflow) : ∃ d, a.div? b = some d := by
  have hvalue : (a.coefficient / b.coefficient * 2 ^ (a.exponent - b.exponent) : ℚ)
      = a.magnitude / b.magnitude := by
    rw [magnitude, magnitude, zpow_sub₀ two_ne_zero, div_mul_div_comm]
  obtain ⟨d, hd, -⟩ := exists_nearest? (a.negative != b.negative) _ hb (hvalue.trans_lt h)
  exact ⟨d, hd⟩

end Double

end TypedClient.Number
