import TypedClient.Proofs.Number.Digits
import TypedClient.Proofs.Number.Rounding

/-!
# Shortest decimals

The shortest decimal of a double lies in the interval of numbers that round to the double, so it is
at most half a step greater (`shortest_spec`).

There is such a decimal because the grid of seventeen digits has a point in every interval: the
steps of the grid are smaller than the interval (`exists_gridPoint`).
-/

set_option autoImplicit false

namespace TypedClient.Number

/-- A power written as a fraction of two powers with natural exponents, one of which is zero. -/
theorem zpow_toNat {b : ℚ} (hb : b ≠ 0) (n : Int) : b ^ n.toNat / b ^ (-n).toNat = b ^ n := by
  rw [← zpow_natCast, ← zpow_natCast, ← zpow_sub₀ hb]
  congr 1
  omega

theorem twoTo_toNat (n : Int) : (twoTo n.toNat : ℚ) / twoTo (-n).toNat = 2 ^ n := by
  rw [← zpow_toNat two_ne_zero, twoTo, twoTo, Nat.pow_eq, Nat.pow_eq]
  push_cast
  rfl

theorem tenTo_toNat (n : Int) : (tenTo n.toNat : ℚ) / tenTo (-n).toNat = 10 ^ n := by
  rw [← zpow_toNat (by norm_num), tenTo, tenTo, Nat.pow_eq, Nat.pow_eq]
  push_cast
  rfl

theorem tenTo_pos (n : Nat) : 0 < tenTo n := Nat.pow_pos (by decide)

namespace RoundingInterval

/-! ## Points of an interval -/

variable {i : RoundingInterval} {digits : Nat} {power : Int}

/-- A point compared with the upper end, as numbers. -/
theorem point_le_iff (hden : 0 < i.den) (bound : Nat) :
    digits * tenTo power.toNat * i.den ≤ bound * tenTo (-power).toNat ↔
      (digits * 10 ^ power : ℚ) ≤ bound / i.den := by
  have hscale : (0 : ℚ) < tenTo (-power).toNat := Nat.cast_pos.2 (tenTo_pos _)
  rw [← tenTo_toNat, mul_div_assoc', div_le_div_iff₀ hscale (Nat.cast_pos.2 hden)]
  exact_mod_cast Iff.rfl

/-- The lower end compared with a point, as numbers. -/
theorem le_point_iff (hden : 0 < i.den) (bound : Nat) :
    bound * tenTo (-power).toNat ≤ digits * tenTo power.toNat * i.den ↔
      (bound / i.den : ℚ) ≤ digits * 10 ^ power := by
  have hscale : (0 : ℚ) < tenTo (-power).toNat := Nat.cast_pos.2 (tenTo_pos _)
  rw [← tenTo_toNat, mul_div_assoc', div_le_div_iff₀ (Nat.cast_pos.2 hden) hscale]
  exact_mod_cast Iff.rfl

/-- What the interval holds lies between its ends. -/
theorem between_of_holds (hden : 0 < i.den) (h : i.holds digits power = true) :
    (i.low / i.den : ℚ) ≤ digits * 10 ^ power ∧ (digits * 10 ^ power : ℚ) ≤ i.high / i.den := by
  rw [← le_point_iff hden, ← point_le_iff hden]
  rw [holds] at h
  split at h
  · simpa using h
  · have h' := (Bool.and_eq_true_iff.1 h).imp of_decide_eq_true of_decide_eq_true
    exact h'.imp Nat.le_of_lt Nat.le_of_lt

/-- What lies strictly between the ends of the interval, it holds. -/
theorem holds_of_between (hden : 0 < i.den) (hlow : (i.low / i.den : ℚ) < digits * 10 ^ power)
    (hhigh : (digits * 10 ^ power : ℚ) < i.high / i.den) : i.holds digits power = true := by
  rw [← not_le, ← point_le_iff hden, Nat.not_le] at hlow
  rw [← not_le, ← le_point_iff hden, Nat.not_le] at hhigh
  rw [holds]
  split
  · simp [hlow.le, hhigh.le]
  · simp [hlow, hhigh]

/-! ## Grids -/

/-- A point of a grid is in the interval. -/
theorem holds_of_gridPoint? {point : Nat} (h : i.gridPoint? power = some point) :
    i.holds point power = true := by
  rw [gridPoint?] at h
  split at h
  · rename_i hfloor hnext
    cases h
    rw [Double.roundHalfEven]
    split
    · exact hfloor
    · split
      · exact hnext
      · split
        · exact hfloor
        · exact hnext
  · rename_i hfloor _
    cases h
    exact hfloor
  · rename_i _ hnext
    cases h
    exact hnext
  · cases h

/-- The interval is about its value and is not empty. -/
structure Proper (i : RoundingInterval) : Prop where
  /-- The denominator is not zero. -/
  den : 0 < i.den
  /-- The lower end is positive. -/
  low : 0 < i.low
  /-- The value is greater than the lower end. -/
  above : i.low < i.value
  /-- It is less than the upper end. -/
  below : i.value < i.high

/-- **A grid with steps smaller than the interval** has a point in it. -/
theorem exists_gridPoint (hi : i.Proper) (h : (10 ^ power : ℚ) < i.high / i.den - i.low / i.den) :
    ∃ point, i.gridPoint? power = some point := by
  have hden : (0 : ℚ) < i.den := Nat.cast_pos.2 hi.den
  have hstep : (0 : ℚ) < 10 ^ power := zpow_pos (by norm_num) power
  have habove : (i.low / i.den : ℚ) < i.value / i.den :=
    div_lt_div_of_pos_right (Nat.cast_lt.2 hi.above) hden
  have hbelow : (i.value / i.den : ℚ) < i.high / i.den :=
    div_lt_div_of_pos_right (Nat.cast_lt.2 hi.below) hden
  have hfraction : ((i.value * tenTo (-power).toNat : Nat) : ℚ) / (i.den * tenTo power.toNat : Nat)
      = i.value / i.den / 10 ^ power := by
    rw [← tenTo_toNat]
    push_cast
    rw [div_div_eq_mul_div, div_mul_eq_mul_div, div_div]
  rw [gridPoint?]
  generalize hfloor : i.value * tenTo (-power).toNat / (i.den * tenTo power.toNat) = floor
  have hfloorLe : (floor * 10 ^ power : ℚ) ≤ i.value / i.den := by
    rw [← le_div_iff₀ hstep, ← hfraction, ← hfloor]
    exact Nat.cast_div_le
  have hltNext : (i.value / i.den : ℚ) < (floor + 1 : Nat) * 10 ^ power := by
    have hscale : 0 < i.den * tenTo power.toNat := Nat.mul_pos hi.den (tenTo_pos _)
    rw [← div_lt_iff₀ hstep, ← hfraction, ← hfloor, div_lt_iff₀' (Nat.cast_pos.2 hscale)]
    exact_mod_cast Nat.lt_mul_div_succ _ hscale
  have hone : i.holds floor power = true ∨ i.holds (floor + 1) power = true := by
    rcases lt_or_ge (i.low / i.den : ℚ) (floor * 10 ^ power) with hlow | hlow
    · exact .inl (holds_of_between hi.den hlow (lt_of_le_of_lt hfloorLe hbelow))
    · refine .inr (holds_of_between hi.den (habove.trans hltNext) ?_)
      rw [Nat.cast_add, Nat.cast_one]
      linarith
  rcases hone with hone | hone <;> rw [hone] <;> split <;> simp_all

theorem holds_firstGrid {leading : Int} {fuel count : Nat} {n : Nat} (hn : n < fuel)
    (h : ∃ point, i.gridPoint? (leading - (count + n : Nat)) = some point) :
    i.holds (i.firstGrid leading count fuel).1 (i.firstGrid leading count fuel).2 = true := by
  induction fuel generalizing count n with
  | zero => exact absurd hn (Nat.not_lt_zero _)
  | succ fuel ih =>
    rw [firstGrid]
    cases hpoint : i.gridPoint? (leading - count) with
    | some point => exact holds_of_gridPoint? hpoint
    | none =>
      cases n with
      | zero =>
        obtain ⟨point, hsome⟩ := h
        rw [Nat.add_zero, hpoint] at hsome
        cases hsome
      | succ n =>
        refine ih (Nat.lt_of_succ_lt_succ hn) ?_
        rwa [Nat.add_right_comm]

/-- The value has at least the power of ten that is told. -/
theorem leadingPower_le (hi : i.Proper) : (10 ^ i.leadingPower : ℚ) ≤ i.value / i.den := by
  have hvalue := hi.low.trans hi.above
  have hden : (0 : ℚ) < i.den := Nat.cast_pos.2 hi.den
  rw [leadingPower]
  split
  · rename_i hle
    have hdigits : 10 ^ ((Nat.toDigits 10 (i.value / i.den)).length - 1) ≤ i.value / i.den :=
      pow_length_toDigits_le (Nat.div_pos hle hi.den)
    have hpower : ((Nat.toDigits 10 (i.value / i.den)).length : Int) - 1
        = ((Nat.toDigits 10 (i.value / i.den)).length - 1 : Nat) := by
      have := @Nat.length_toDigits_pos 10 (i.value / i.den)
      omega
    rw [hpower, zpow_natCast]
    refine le_trans ?_ Nat.cast_div_le
    exact_mod_cast hdigits
  · have hbelow {n : Nat} (hn : i.den ≤ i.value * tenTo n) : (10 ^ (-(n : Int)) : ℚ) ≤
        i.value / i.den := by
      have hn' : (i.den : ℚ) ≤ i.value * 10 ^ n := by exact_mod_cast hn
      rw [zpow_neg, zpow_natCast, inv_eq_one_div, div_le_div_iff₀ (by positivity) hden]
      linarith
    dsimp only
    split
    · rename_i heq
      have hplaces := @Nat.length_toDigits_pos 10 (i.den / i.value)
      have hcast : ((Nat.toDigits 10 (i.den / i.value)).length : Int) - 1
          = ((Nat.toDigits 10 (i.den / i.value)).length - 1 : Nat) := by omega
      rw [hcast]
      exact hbelow heq.ge
    · refine hbelow ?_
      rw [Nat.mul_comm]
      exact (Nat.div_lt_iff_lt_mul hvalue).1 (lt_pow_length_toDigits _) |>.le

/-! ## The interval of a double -/

variable {d : Double}

theorem ofDouble_div (d : Double) (n : Nat) :
    ((n * twoTo d.exponent.toNat : Nat) : ℚ) / (ofDouble d).den = n / 4 * 2 ^ d.exponent := by
  rw [ofDouble, ← twoTo_toNat]
  push_cast
  rw [div_mul_div_comm]

theorem proper_ofDouble (hd : d.coefficient ≠ 0) : (ofDouble d).Proper := by
  have hup : 0 < twoTo d.exponent.toNat := Nat.two_pow_pos _
  refine ⟨Nat.mul_pos (by decide) (Nat.two_pow_pos _), Nat.mul_pos ?_ hup,
    Nat.mul_lt_mul_of_pos_right ?_ hup, Nat.mul_lt_mul_of_pos_right (by omega) hup⟩
  all_goals
    split
    all_goals omega

theorem value_ofDouble (d : Double) :
    ((ofDouble d).value / (ofDouble d).den : ℚ) = d.magnitude := by
  refine (ofDouble_div d (4 * d.coefficient)).trans ?_
  rw [Double.magnitude, Nat.cast_mul, Nat.cast_ofNat, mul_div_cancel_left₀ _ (by norm_num)]

theorem high_ofDouble (d : Double) :
    ((ofDouble d).high / (ofDouble d).den : ℚ) = (d.coefficient + 1 / 2) * 2 ^ d.exponent := by
  refine (ofDouble_div d (4 * d.coefficient + 2)).trans ?_
  push_cast
  ring

/-- The lower end is half a step below the value, but for powers of two. -/
theorem low_ofDouble (hd : d.coefficient ≠ 0) :
    ((ofDouble d).low / (ofDouble d).den : ℚ) = (d.coefficient - 1 / 2) * 2 ^ d.exponent ∨
      d.coefficient = twoTo 52 ∧
        ((ofDouble d).low / (ofDouble d).den : ℚ) = (d.coefficient - 1 / 4) * 2 ^ d.exponent := by
  have hlow (below : Nat) (hle : below ≤ 4 * d.coefficient)
      (heq : (ofDouble d).low = (4 * d.coefficient - below) * twoTo d.exponent.toNat) :
      ((ofDouble d).low / (ofDouble d).den : ℚ) = (d.coefficient - below / 4) * 2 ^ d.exponent := by
    rw [heq, ofDouble_div, Nat.cast_sub hle]
    push_cast
    ring
  by_cases hbelow : d.coefficient = twoTo 52 ∧ d.exponent ≠ leastExponent
  · refine .inr ⟨hbelow.1, ?_⟩
    rw [hlow 1 (by omega) (by rw [ofDouble, if_pos hbelow]), Nat.cast_one]
  · left
    rw [hlow 2 (by omega) (by rw [ofDouble, if_neg hbelow])]
    norm_num

/-- The steps of the grid of seventeen digits are smaller than the interval. -/
theorem step_lt_width (hd : d.coefficient ≠ 0) {power : Int} (h : (10 ^ power : ℚ) ≤ d.magnitude) :
    (10 ^ (power - 16) : ℚ)
      < (ofDouble d).high / (ofDouble d).den - (ofDouble d).low / (ofDouble d).den := by
  have hpos := Double.two_zpow_pos d.exponent
  rw [Double.magnitude] at h
  rw [zpow_sub₀ (by norm_num), high_ofDouble, div_lt_iff₀ (by positivity)]
  refine lt_of_le_of_lt h ?_
  rcases low_ofDouble hd with hlow | ⟨hc, hlow⟩
  · have hbits : (d.coefficient : ℚ) < 2 ^ 53 := by exact_mod_cast d.canonical.1
    rw [hlow, ← sub_mul, mul_right_comm]
    refine mul_lt_mul_of_pos_right (hbits.trans ?_) hpos
    norm_num
  · have hc' : (d.coefficient : ℚ) = 2 ^ 52 := by exact_mod_cast hc
    rw [hlow, ← sub_mul, mul_right_comm, hc']
    refine mul_lt_mul_of_pos_right ?_ hpos
    norm_num

end RoundingInterval

/-! ## Decimals -/

/-- The number that digits write. -/
def Decimal.significand (d : Decimal) : Nat := Nat.ofDigitChars 10 (d.digits.map Nat.digitChar) 0

/-- The number that a decimal stands for. -/
def Decimal.value (d : Decimal) : ℚ :=
  d.significand * 10 ^ (d.power - (d.digits.length - 1))

/-- The digits of the decimal are digits, and the first one is not zero. -/
structure Decimal.Normal (d : Decimal) : Prop where
  /-- The digits are digits in base ten. -/
  digits : ∀ digit ∈ d.digits, digit < 10
  /-- There is a first digit, and it is not zero. -/
  leading : ∃ digit, d.digits.head? = some digit ∧ digit ≠ 0

theorem normal_significantDigits {n : Nat} (hn : 0 < n) (power : Int) :
    Decimal.Normal ⟨significantDigits n, power⟩ := by
  obtain ⟨zeros, hzeros⟩ := toDigits_significantDigits n
  have hhead := head?_toDigits hn
  refine ⟨fun _ => lt_ten_of_mem_significantDigits, ?_⟩
  cases hdigits : significantDigits n with
  | nil =>
    rw [hzeros, hdigits, List.map_nil, List.nil_append] at hhead
    cases zeros with
    | zero => exact absurd hzeros (by rw [hdigits]; exact Nat.toDigits_ne_nil)
    | succ zeros => exact absurd rfl hhead
  | cons digit rest =>
    refine ⟨digit, rfl, fun hzero => hhead ?_⟩
    rw [hzeros, hdigits, hzero]
    rfl

/-- The significant digits of a number stand for it, with the power of ten of its first digit. -/
theorem value_significantDigits (n : Nat) (power : Int) :
    Decimal.value ⟨significantDigits n, power + (Nat.toDigits 10 n).length - 1⟩ =
      n * 10 ^ power := by
  obtain ⟨zeros, hzeros⟩ := toDigits_significantDigits n
  have hn : n = 10 ^ zeros * Nat.ofDigitChars 10 ((significantDigits n).map Nat.digitChar) 0 := by
    rw [← Nat.ofDigitChars_replicate_zero, ← Nat.ofDigitChars_append, ← hzeros,
      Nat.ofDigitChars_toDigits (by decide) (by decide)]
  have hlength : (Nat.toDigits 10 n).length = (significantDigits n).length + zeros := by
    rw [hzeros, List.length_append, List.length_map, List.length_replicate]
  have hpower : power + (Nat.toDigits 10 n).length - 1 - ((significantDigits n).length - 1)
      = zeros + power := by
    rw [hlength]
    omega
  rw [Decimal.value, Decimal.significand, hpower, zpow_add₀ (by norm_num), zpow_natCast]
  nth_rewrite 3 [hn]
  push_cast
  ring

/-- **The shortest decimal of a double** is half a step greater at most. -/
theorem shortest_spec {d : Double} (hd : d.coefficient ≠ 0) :
    d.shortest.Normal ∧ d.shortest.value ≤ (d.coefficient + 1 / 2) * 2 ^ d.exponent := by
  have hproper := RoundingInterval.proper_ofDouble hd
  have hleading := RoundingInterval.leadingPower_le hproper
  rw [RoundingInterval.value_ofDouble] at hleading
  have hholds := RoundingInterval.holds_firstGrid (n := 16) (Nat.lt_succ_self 16)
    (RoundingInterval.exists_gridPoint hproper (RoundingInterval.step_lt_width hd hleading))
  rw [Double.shortest]
  generalize (RoundingInterval.ofDouble d).firstGrid
    (RoundingInterval.ofDouble d).leadingPower 0 17 = grid at hholds ⊢
  obtain ⟨hlow, hhigh⟩ := RoundingInterval.between_of_holds hproper.den hholds
  have hpos : 0 < grid.1 := Nat.pos_of_ne_zero fun hzero => by
    rw [hzero, Nat.cast_zero, zero_mul] at hlow
    exact absurd hlow (not_le.2 (div_pos (Nat.cast_pos.2 hproper.low) (Nat.cast_pos.2 hproper.den)))
  refine ⟨normal_significantDigits hpos _, ?_⟩
  rw [← RoundingInterval.high_ofDouble]
  exact (value_significantDigits _ _).trans_le hhigh

end TypedClient.Number
