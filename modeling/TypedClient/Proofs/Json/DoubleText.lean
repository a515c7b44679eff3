import TypedClient.Json.NumberText
import TypedClient.Proofs.Json.Decoding
import TypedClient.Proofs.Json.NumberParts
import TypedClient.Proofs.Number.Rounding
import TypedClient.Proofs.Number.Shortest

/-!
# The texts of numbers read as numbers

A reader of numbers rounds twice, the digits and then their product with the power of ten.  Each
time the number grows by little, so there is a double as long as the number is not too close to
being too great for one (`exists_toDouble?`).

So the text of a double reads as a number.  The integers of a document fit 64 bits, so the texts of
all its numbers do (`exists_readNumber_text`).  `InRange` says of the integers of a value that they
fit; the values inside of it are in range as well (`inherited_inRange`).
-/

set_option autoImplicit false

namespace TypedClient.Json

open TypedClient.Number

variable {d : Double} {power : Int}

/-- What rounding makes of a number that is not small is at most this many times the number. -/
def growth : ℚ := 1 + 1 / 2 ^ 52

theorem growth_pos : 0 < growth := by norm_num [growth]

theorem cast_twoTo (n : Nat) : (twoTo n : ℚ) = 2 ^ (n : Int) := by
  rw [twoTo, Nat.pow_eq, Nat.cast_pow, Nat.cast_ofNat, zpow_natCast]

theorem cast_tenTo (n : Nat) : (tenTo n : ℚ) = 10 ^ (n : Int) := by
  rw [tenTo, Nat.pow_eq, Nat.cast_pow, Nat.cast_ofNat, zpow_natCast]

theorem overflow_eq : overflow = ((2 * twoTo 53 - 1) * twoTo 970 : Nat) := by
  have hexponent : greatestExponent = (970 : Nat) + 1 := rfl
  have hbits : ((2 * twoTo 53 - 1 : Nat) : ℚ) = 2 ^ 54 - 1 := by norm_num [twoTo]
  rw [overflow, hexponent, zpow_add_one₀ two_ne_zero, Nat.cast_mul, hbits, cast_twoTo]
  ring

theorem tenTo_le {m n : Nat} (h : m ≤ n) : tenTo m ≤ tenTo n := Nat.pow_le_pow_right (by decide) h

/-- The overflow stands between two powers of ten. -/
theorem overflow_bounds : tenTo 308 < (2 * twoTo 53 - 1) * twoTo 970 ∧
    2 * ((2 * twoTo 53 - 1) * twoTo 970) < tenTo 309 := by decide +kernel

/-- The powers of ten that one step scales by are below the overflow. -/
theorem tenTo_lt_overflow {n : Nat} (hn : n ≤ 308) : (tenTo n : ℚ) < overflow := by
  rw [overflow_eq]
  exact Nat.cast_lt.2 (Nat.lt_of_le_of_lt (tenTo_le hn) overflow_bounds.1)

/-- The next one is beyond it. -/
theorem overflow_lt_tenTo : overflow < tenTo 309 / 2 := by
  have hbeyond : (2 : ℚ) * ((2 * twoTo 53 - 1) * twoTo 970 : Nat) < tenTo 309 := by
    exact_mod_cast overflow_bounds.2
  rw [overflow_eq]
  linarith

/-- They are nearly doubles. -/
theorem exists_factor {n : Nat} (hn : n ≤ 308) : ∃ factor, Double.ofNat? (tenTo n) = some factor ∧
    |factor.magnitude - tenTo n| ≤ tenTo n / 2 ^ 52 :=
  Double.exists_ofNat? (Nat.pow_pos (by decide)) (tenTo_lt_overflow hn)

theorem exists_scaleOnce?_of_nonneg (hpower : 0 ≤ power) (hle : power.natAbs ≤ 308)
    (h : d.magnitude * 10 ^ power * growth < overflow) : ∃ e, scaleOnce? d power = some e := by
  obtain ⟨factor, hfactor, herror⟩ := exists_factor hle
  have hnat : (10 ^ power : ℚ) = tenTo power.natAbs := by
    rw [cast_tenTo, Int.natAbs_of_nonneg hpower]
  have hgrown : factor.magnitude ≤ 10 ^ power * growth := by
    rw [hnat, growth]
    linarith [(abs_le.1 herror).2]
  have hproduct : d.magnitude * factor.magnitude < overflow := by
    refine lt_of_le_of_lt (mul_le_mul_of_nonneg_left hgrown d.magnitude_nonneg) ?_
    rwa [← mul_assoc]
  rw [scaleOnce?, hfactor]
  exact (Double.exists_mul? hproduct).imp fun e he => (if_pos hpower).trans he

theorem exists_scaleOnce?_of_neg (hpower : power < 0) (hle : power.natAbs ≤ 308) :
    ∃ e, scaleOnce? d power = some e := by
  obtain ⟨factor, hfactor, herror⟩ := exists_factor hle
  have hone : 1 ≤ factor.magnitude := by
    have hten : 10 ≤ tenTo power.natAbs :=
      Nat.le_self_pow (n := power.natAbs) (by omega) 10
    have hten' : (10 : ℚ) ≤ tenTo power.natAbs := by exact_mod_cast hten
    linarith [(abs_le.1 herror).1]
  have hcoefficient : 0 < factor.coefficient := Nat.pos_of_ne_zero fun hzero => by
    rw [Double.magnitude, hzero, Nat.cast_zero, zero_mul] at hone
    exact absurd hone (by norm_num)
  have hquotient : d.magnitude / factor.magnitude < overflow :=
    lt_of_le_of_lt (div_le_self d.magnitude_nonneg hone) d.magnitude_lt_overflow
  rw [scaleOnce?, hfactor]
  exact (Double.exists_div? hcoefficient hquotient).imp fun e he =>
    (if_neg hpower.not_ge).trans he

/-- Numbers below one can always be made smaller. -/
theorem exists_scaleTen?_of_neg (hpower : power < 0) (steps : Nat) :
    ∃ e, scaleTen? d power steps = some e := by
  induction steps generalizing d power with
  | zero => exact ⟨_, rfl⟩
  | succ steps ih =>
    rw [scaleTen?]
    split
    · rename_i hle
      exact exists_scaleOnce?_of_neg hpower hle
    · rename_i hgreat
      split
      · exact ⟨_, rfl⟩
      · rw [if_neg hpower.not_ge]
        obtain ⟨smaller, hsmaller⟩ : ∃ e, scaleOnce? d (-308) = some e :=
          exists_scaleOnce?_of_neg (by decide) (by decide)
        rw [hsmaller]
        exact ih (by omega)

/-- Numbers that are not small are made greater as far as there are doubles. -/
theorem exists_scaleTen?_of_nonneg (hpower : 0 ≤ power)
    (h : d.magnitude * 10 ^ power * growth < overflow)
    (hd : d.isZero = true ∨ 1 / 2 ≤ d.magnitude) (steps : Nat) :
    ∃ e, scaleTen? d power steps = some e := by
  cases steps with
  | zero => exact ⟨_, rfl⟩
  | succ steps =>
    rw [scaleTen?]
    split
    · rename_i hle
      exact exists_scaleOnce?_of_nonneg hpower hle h
    · rename_i hgreat
      rcases hd with hzero | hhalf
      · exact ⟨d, if_pos hzero⟩
      · have hten : (tenTo 309 : ℚ) ≤ 10 ^ power := by
          rw [cast_tenTo]
          exact zpow_le_zpow_right₀ (by norm_num) (by omega)
        have hproduct : tenTo 309 / 2 ≤ d.magnitude * 10 ^ power := by
          rw [← one_div_mul_eq_div]
          exact mul_le_mul hhalf hten (Nat.cast_nonneg _) d.magnitude_nonneg
        have hgrown : d.magnitude * 10 ^ power ≤ d.magnitude * 10 ^ power * growth :=
          le_mul_of_one_le_right ((by positivity : (0 : ℚ) ≤ tenTo 309 / 2).trans hproduct)
            (by norm_num [growth])
        linarith [overflow_lt_tenTo]

theorem exists_scaleTen? (h : d.magnitude * 10 ^ power * growth < overflow)
    (hd : d.isZero = true ∨ 1 / 2 ≤ d.magnitude) (steps : Nat) :
    ∃ e, scaleTen? d power steps = some e := by
  rcases lt_or_ge power 0 with hneg | hnonneg
  · exact exists_scaleTen?_of_neg hneg steps
  · exact exists_scaleTen?_of_nonneg hnonneg h hd steps

/-- **Digits scaled by a power of ten** are rounded to a double if their number stays below the
overflow when it grows by two roundings. -/
theorem exists_toDouble? {s : Significand} (hdigits : s.digits ≤ significandLimit)
    (h : s.digits * 10 ^ s.power * growth ^ 2 < overflow) (negative : Bool) :
    ∃ d, s.toDouble? negative = some d := by
  have hscaled : ∃ d e, Double.ofNat? s.digits = some d ∧ scaleTen? d s.power 4 = some e := by
    rcases Nat.eq_zero_or_pos s.digits with hzero | hpos
    · have hmagnitude : (Double.zero false).magnitude = 0 := by
        rw [Double.magnitude, Double.zero, Nat.cast_zero, zero_mul]
      obtain ⟨e, he⟩ := exists_scaleTen? (d := Double.zero false)
        (by rw [hmagnitude, zero_mul, zero_mul]; exact overflow_pos) (.inl rfl) 4
      exact ⟨_, e, by rw [hzero]; rfl, he⟩
    · have hlimit : significandLimit ≤ tenTo 20 := by decide
      have hbelow : (s.digits : ℚ) < overflow :=
        (Nat.cast_le.2 (hdigits.trans hlimit)).trans_lt (tenTo_lt_overflow (by decide))
      obtain ⟨d, hd, herror⟩ := Double.exists_ofNat? hpos hbelow
      have hone : (1 : ℚ) ≤ s.digits := Nat.one_le_cast.2 hpos
      have hgrown : d.magnitude ≤ s.digits * growth := by
        rw [growth]
        linarith [(abs_le.1 herror).2]
      have hproduct : d.magnitude * 10 ^ s.power * growth < overflow := by
        refine lt_of_le_of_lt ?_ h
        calc d.magnitude * 10 ^ s.power * growth
            ≤ s.digits * growth * 10 ^ s.power * growth := by
              have := growth_pos
              gcongr
          _ = s.digits * 10 ^ s.power * growth ^ 2 := by ring
      obtain ⟨e, he⟩ := exists_scaleTen? hproduct (.inr (by linarith [(abs_le.1 herror).1])) 4
      exact ⟨d, e, hd, he⟩
  obtain ⟨d, e, hd, he⟩ := hscaled
  exact ⟨if negative then e.neg else e, by rw [Significand.toDouble?, hd]; simp [he]⟩

end TypedClient.Json

/-! ## Doubles -/

namespace TypedClient.Json

open TypedClient.Number

/-! ## Kept digits -/

/-- Digits after the point that are left out make the number smaller. -/
theorem addFraction_le {cs : List Char} {s : Significand} (hs : s.digits ≤ significandLimit) :
    (s.addFraction cs).digits ≤ significandLimit ∧
      ((s.addFraction cs).digits * 10 ^ (s.addFraction cs).power : ℚ)
        ≤ Nat.ofDigitChars 10 cs s.digits * 10 ^ (s.power - cs.length) := by
  induction cs generalizing s with
  | nil => simpa [Significand.addFraction] using hs
  | cons c cs ih =>
    have hpower : s.power - (c :: cs).length = s.power - 1 - cs.length := by
      rw [List.length_cons]
      omega
    rw [Significand.addFraction, hpower]
    split
    · rename_i hnext
      have hdigits : s.digits * 10 + TypedClient.Text.digitValue c
          = 10 * s.digits + (c.toNat - '0'.toNat) := by
        rw [TypedClient.Text.digitValue, Nat.mul_comm]
      have hrest := @ih ⟨_, s.power - 1⟩ hnext
      rw [Nat.ofDigitChars_cons, ← hdigits]
      exact hrest
    · refine ⟨hs, ?_⟩
      have hlength : s.power = (c :: cs).length + (s.power - 1 - cs.length) := by
        rw [List.length_cons]
        omega
      nth_rewrite 1 [hlength]
      rw [zpow_add₀ (by norm_num), ← mul_assoc, zpow_natCast]
      refine mul_le_mul_of_nonneg_right ?_ (by positivity)
      exact_mod_cast mul_pow_le_ofDigitChars (c :: cs) s.digits

/-- The number that the parts of a text write. -/
def NumberParts.value (t : NumberParts) : ℚ :=
  Nat.ofDigitChars 10 (t.whole ++ t.fraction) 0 * 10 ^ (t.exponent.getD 0 - t.fraction.length)

/-- A number that is not too great is read. -/
theorem exists_readNumber_chars (t : NumberParts) (hwhole : t.wholeNumber ≤ significandLimit)
    (h : t.value * growth ^ 2 < overflow) (negative : Bool) :
    ∃ n, readNumber (signChars negative ++ t.chars) = some (n, []) := by
  have hkept := @addFraction_le t.fraction ⟨t.wholeNumber, 0⟩ hwhole
  obtain ⟨hdigits, hle⟩ := hkept
  have hvalue : t.significand.digits * 10 ^ t.significand.power ≤ t.value := by
    have hpower : t.exponent.getD 0 - t.fraction.length
        = (0 : Int) - t.fraction.length + t.exponent.getD 0 := by omega
    rw [NumberParts.value, Nat.ofDigitChars_append, hpower, zpow_add₀ (by norm_num), ← mul_assoc]
    rw [NumberParts.significand, zpow_add₀ (by norm_num), ← mul_assoc]
    exact mul_le_mul_of_nonneg_right hle (by positivity)
  obtain ⟨d, hd⟩ := exists_toDouble? (s := t.significand) hdigits (lt_of_le_of_lt
    (mul_le_mul_of_nonneg_right hvalue (by have := growth_pos; positivity)) h) negative
  rw [readNumber_chars t hwhole, hd]
  cases t.integer? negative with
  | some n => exact ⟨.integer n, rfl⟩
  | none => exact ⟨.double d, rfl⟩

/-! ## Decimals -/

section Decimals

variable {d : Decimal}

/-- The characters of the digits of a decimal. -/
theorem digitChars_spec (hd : d.Normal) : (∀ c ∈ d.digits.map Nat.digitChar, c.isDigit = true) ∧
    ∃ c rest, d.digits.map Nat.digitChar = c :: rest ∧ c ≠ '0' := by
  refine ⟨fun c hc => ?_, ?_⟩
  · obtain ⟨n, hn, rfl⟩ := List.mem_map.1 hc
    simp [Nat.isDigit_digitChar, hd.digits n hn]
  · obtain ⟨first, hfirst, hne⟩ := hd.leading
    obtain ⟨rest, hrest⟩ := List.head?_eq_some_iff.1 hfirst
    exact ⟨first.digitChar, rest.map Nat.digitChar, by rw [hrest]; rfl,
      fun hzero => hne (Nat.digitChar_eq_zero.1 hzero)⟩

/-- The text consists of the parts of a number of the value, with few digits before the point. -/
def Writes (text : List Char) (value : ℚ) : Prop :=
  ∃ t : NumberParts, t.chars = text ∧ t.value = value ∧ t.whole.length ≤ 16

theorem wholeNumber_le {t : NumberParts} (h : t.whole.length ≤ 16) :
    t.wholeNumber ≤ significandLimit := by
  have hlt := ofDigitChars_lt t.wholeDigits 0
  have hpow : 10 ^ t.whole.length ≤ 10 ^ 16 := Nat.pow_le_pow_right (by decide) h
  have hlimit : 10 ^ 16 ≤ significandLimit := by decide
  rw [NumberParts.wholeNumber]
  omega

theorem isDigit_of_mem_replicate {c : Char} {n : Nat} (hc : c ∈ List.replicate n '0') :
    c.isDigit = true := by
  rw [List.eq_of_mem_replicate hc]
  rfl

/-- Digits around a point are such a text. -/
theorem writes_point {whole fraction : List Char} (hwhole : ∀ c ∈ whole, c.isDigit = true)
    (hne : whole ≠ []) (hleading : whole.head? = some '0' → whole.length = 1)
    (hlength : whole.length ≤ 16) (hfraction : ∀ c ∈ fraction, c.isDigit = true)
    (hne' : fraction ≠ []) : Writes (whole ++ '.' :: fraction)
      (Nat.ofDigitChars 10 (whole ++ fraction) 0 * 10 ^ (-fraction.length : Int)) := by
  refine ⟨⟨whole, fraction, none, hne, hwhole, hleading, hfraction⟩, ?_, ?_, hlength⟩
  · simp [NumberParts.chars, NumberParts.fractionChars, NumberParts.exponentChars, hne']
  · rw [NumberParts.value, Option.getD_none, zero_sub]

/-- Zeros fill up the digits before the point. -/
theorem writes_padded (hd : d.Normal) (hnonneg : 0 ≤ d.power) (hle : d.power ≤ 15)
    (hshort : d.digits.length ≤ d.power.toNat + 1) :
    Writes (d.digits.map Nat.digitChar ++
      (List.replicate (d.power.toNat + 1 - d.digits.length) '0' ++ ['.', '0'])) d.value := by
  obtain ⟨hdigits, first, rest, hcons, hfirst⟩ := digitChars_spec hd
  have hlength : (d.digits.map Nat.digitChar).length = d.digits.length := List.length_map _
  generalize hn : d.power.toNat + 1 - d.digits.length = n
  have hfloat := @writes_point (d.digits.map Nat.digitChar ++ List.replicate n '0') ['0']
    (List.forall_mem_append.2 ⟨hdigits, fun c => isDigit_of_mem_replicate⟩) (by simp [hcons])
    (by simp [hcons, hfirst]) (by simp; omega) (List.forall_mem_singleton.2 rfl)
    (List.cons_ne_nil _ _)
  convert hfloat using 1
  · simp
  · have hpower : d.power - (d.digits.length - 1) = n := by omega
    have hvalue :
        Nat.ofDigitChars 10 (d.digits.map Nat.digitChar ++ List.replicate n '0' ++ ['0']) 0 =
          10 ^ (n + 1) * Nat.ofDigitChars 10 (d.digits.map Nat.digitChar) 0 := by
      rw [List.append_assoc, ← List.replicate_succ', Nat.ofDigitChars_append,
        Nat.ofDigitChars_replicate_zero]
    rw [Decimal.value, Decimal.significand, hpower, hvalue, zpow_natCast]
    push_cast
    rw [List.length_singleton, Nat.cast_one, zpow_neg_one, pow_succ]
    field_simp

/-- The point stands between digits. -/
theorem writes_split (hd : d.Normal) (hnonneg : 0 ≤ d.power) (hle : d.power ≤ 15)
    (hlong : d.power.toNat + 1 < d.digits.length) :
    Writes ((d.digits.map Nat.digitChar).take (d.power.toNat + 1) ++
      '.' :: (d.digits.map Nat.digitChar).drop (d.power.toNat + 1)) d.value := by
  obtain ⟨hdigits, first, rest, hcons, hfirst⟩ := digitChars_spec hd
  have hlength : (d.digits.map Nat.digitChar).length = d.digits.length := List.length_map _
  have hfloat := @writes_point ((d.digits.map Nat.digitChar).take (d.power.toNat + 1))
    ((d.digits.map Nat.digitChar).drop (d.power.toNat + 1))
    (fun c hc => hdigits c (List.mem_of_mem_take hc)) (by simp [hcons])
    (by simp [hcons, hfirst]) (by simp; omega) (fun c hc => hdigits c (List.mem_of_mem_drop hc))
    (by simp; omega)
  rw [Decimal.value, Decimal.significand]
  convert hfloat using 1
  rw [List.take_append_drop, List.length_drop]
  congr 2
  omega

/-- Zeros stand behind the point, before the digits. -/
theorem writes_small (hd : d.Normal) (hneg : d.power < 0) :
    Writes ('0' :: '.' :: (List.replicate ((-d.power).toNat - 1) '0' ++
      d.digits.map Nat.digitChar)) d.value := by
  obtain ⟨hdigits, first, rest, hcons, -⟩ := digitChars_spec hd
  have hlength : (d.digits.map Nat.digitChar).length = d.digits.length := List.length_map _
  generalize hn : (-d.power).toNat - 1 = n
  have hfloat := @writes_point ['0'] (List.replicate n '0' ++ d.digits.map Nat.digitChar)
    (List.forall_mem_singleton.2 rfl) (List.cons_ne_nil _ _) (fun _ => rfl) (by decide)
    (List.forall_mem_append.2 ⟨fun c => isDigit_of_mem_replicate, hdigits⟩) (by simp [hcons])
  have hzeros :
      Nat.ofDigitChars 10 (['0'] ++ (List.replicate n '0' ++ d.digits.map Nat.digitChar)) 0 =
        Nat.ofDigitChars 10 (d.digits.map Nat.digitChar) 0 := by
    rw [Nat.ofDigitChars_append, Nat.ofDigitChars_append, Nat.ofDigitChars_replicate_zero]
    rfl
  rw [Decimal.value, Decimal.significand]
  convert hfloat using 1
  · rfl
  · rw [hzeros, List.length_append, List.length_replicate]
    congr 2
    push_cast
    omega

theorem writes_positional (hd : d.Normal) (hle : d.power ≤ 15) :
    Writes (DecimalLayout.plain.positional d).toList d.value := by
  rw [DecimalLayout.positional]
  split
  · rename_i hnonneg
    dsimp only
    split
    · rename_i hshort
      convert writes_padded hd hnonneg hle hshort using 1
      simp [DecimalLayout.digitText, DecimalLayout.zeros, DecimalLayout.plain]
    · rename_i hlong
      convert writes_split hd hnonneg hle (Nat.lt_of_not_le hlong) using 1
      simp [DecimalLayout.digitText, List.map_take, List.map_drop]
  · rename_i hneg
    convert writes_small hd (Int.not_le.1 hneg) using 1
    simp [DecimalLayout.digitText, DecimalLayout.zeros]

theorem exponentChars_of_nonneg {power : Int} (h : 0 ≤ power) :
    NumberParts.exponentChars (some power) = "e+".toList ++ (toString power.toNat).toList := by
  have hnat : power.natAbs = power.toNat := by omega
  rw [NumberParts.exponentChars, if_pos h, hnat, Nat.toString_eq_repr, Nat.toList_repr]
  rfl

theorem exponentChars_of_neg {power : Int} (h : ¬0 ≤ power) :
    NumberParts.exponentChars (some power) = "e-".toList ++ (toString (-power).toNat).toList := by
  have hnat : power.natAbs = (-power).toNat := by omega
  rw [NumberParts.exponentChars, if_neg h, hnat, Nat.toString_eq_repr, Nat.toList_repr]
  rfl

/-- The text with an exponent has one digit before the point. -/
theorem toList_scientific {digit : Nat} {rest : List Nat} (hdigits : d.digits = digit :: rest) :
    (DecimalLayout.plain.scientific d).toList = digit.digitChar ::
      (NumberParts.fractionChars (rest.map Nat.digitChar) ++ NumberParts.exponentChars
        (some d.power)) := by
  rw [DecimalLayout.scientific, hdigits]
  by_cases hnonneg : 0 ≤ d.power
  · rw [exponentChars_of_nonneg hnonneg]
    cases rest <;>
      simp [hnonneg, NumberParts.fractionChars, DecimalLayout.digitText, DecimalLayout.plain]
  · rw [exponentChars_of_neg hnonneg]
    cases rest <;>
      simp [hnonneg, NumberParts.fractionChars, DecimalLayout.digitText, DecimalLayout.plain]

theorem writes_scientific (hd : d.Normal) :
    Writes (DecimalLayout.plain.scientific d).toList d.value := by
  obtain ⟨digit, hdigit, -⟩ := hd.leading
  obtain ⟨rest, hrest⟩ := List.head?_eq_some_iff.1 hdigit
  obtain ⟨hdigits, -⟩ := digitChars_spec hd
  rw [hrest] at hdigits
  obtain ⟨hfirst, hothers⟩ := List.forall_mem_cons.1 hdigits
  refine ⟨⟨[digit.digitChar], rest.map Nat.digitChar, some d.power, List.cons_ne_nil _ _,
    List.forall_mem_singleton.2 hfirst, fun _ => rfl, hothers⟩, ?_, ?_, ?_⟩
  · rw [toList_scientific hrest]
    rfl
  · have hpower : d.power - ((digit :: rest).length - 1)
        = d.power - (rest.map Nat.digitChar).length := by
      rw [List.length_map, List.length_cons]
      omega
    rw [Decimal.value, Decimal.significand, hrest, hpower]
    rfl
  · exact Nat.le_add_left 1 15

end Decimals

/-! ## Doubles -/

/-- The doubles whose texts come closest to the overflow. -/
def nearOverflow (negative : Bool) (steps : Fin 4) : Double :=
  ⟨negative, twoTo 53 - 1 - steps, greatestExponent, by
    have := steps.isLt
    have : twoTo 53 = 9007199254740992 := rfl
    have : twoTo 52 = 4503599627370496 := rfl
    have : leastExponent ≤ greatestExponent := by decide
    exact ⟨by omega, by omega, by omega, .inl (by omega)⟩⟩

theorem readNumber_nearOverflow : ∀ negative steps,
    (readNumber (DecimalLayout.plain.write (nearOverflow negative steps)).toList).map Prod.snd =
      some [] := by
  decide +kernel

theorem exists_nearOverflow {d : Double} (hexponent : d.exponent = greatestExponent)
    (hcoefficient : twoTo 53 ≤ d.coefficient + 4) : ∃ steps, d = nearOverflow d.negative steps := by
  obtain ⟨negative, coefficient, exponent, hcanonical⟩ := d
  obtain rfl : exponent = greatestExponent := hexponent
  have hlt := hcanonical.1
  have hsame {other : Nat} (h : coefficient = other) (hother : IsCanonical other greatestExponent) :
      (⟨negative, coefficient, greatestExponent, hcanonical⟩ : Double)
        = ⟨negative, other, greatestExponent, hother⟩ := by
    subst h
    rfl
  refine ⟨⟨twoTo 53 - 1 - coefficient, by dsimp only at hcoefficient; omega⟩, hsame ?_ _⟩
  dsimp only
  omega

/-- The shortest decimals of all others stay below it, even if they grow by two roundings. -/
theorem shortest_lt_overflow {d : Double} (hd : d.coefficient ≠ 0)
    (hother : ¬∃ steps, d = nearOverflow d.negative steps) :
    d.shortest.value * growth ^ 2 < overflow := by
  obtain ⟨hbits, -, hexponent, -⟩ := d.canonical
  have hgrowth : 0 < growth ^ 2 := pow_pos growth_pos 2
  refine lt_of_le_of_lt (mul_le_mul_of_nonneg_right (shortest_spec hd).2 hgrowth.le) ?_
  have hgreatest := Double.two_zpow_pos greatestExponent
  rw [overflow, mul_right_comm]
  rcases lt_or_eq_of_le hexponent with hlt | heq
  · have hdouble : (2 ^ d.exponent * 2 : ℚ) ≤ 2 ^ greatestExponent := by
      rw [← zpow_add_one₀ two_ne_zero]
      exact zpow_le_zpow_right₀ one_le_two hlt
    have hcoefficient : (d.coefficient + 1 : ℚ) ≤ 2 ^ 53 := by exact_mod_cast hbits
    calc (d.coefficient + 1 / 2) * growth ^ 2 * 2 ^ d.exponent
        ≤ 2 ^ 53 * growth ^ 2 * (2 ^ greatestExponent / 2) := by
          refine mul_le_mul (mul_le_mul_of_nonneg_right (by linarith) hgrowth.le) (by linarith)
            (Double.two_zpow_pos _).le (by positivity)
      _ = 2 ^ 52 * growth ^ 2 * 2 ^ greatestExponent := by ring
      _ < (2 ^ 53 - 1 / 2) * 2 ^ greatestExponent :=
          mul_lt_mul_of_pos_right (by norm_num [growth]) hgreatest
  · have hcoefficient : d.coefficient + 5 ≤ twoTo 53 := by
      refine Nat.le_of_not_lt fun hlt => hother (exists_nearOverflow heq (by omega))
    have hcoefficient' : (d.coefficient + 5 : ℚ) ≤ 2 ^ 53 := by exact_mod_cast hcoefficient
    rw [heq]
    refine mul_lt_mul_of_pos_right ?_ hgreatest
    calc (d.coefficient + 1 / 2) * growth ^ 2 ≤ (2 ^ 53 - 5 + 1 / 2) * growth ^ 2 :=
          mul_le_mul_of_nonneg_right (by linarith) hgrowth.le
      _ < 2 ^ 53 - 1 / 2 := by norm_num [growth]

/-- **The text of a double reads as a number.** -/
theorem exists_readNumber_double (d : Double) :
    ∃ n, readNumber (DecimalLayout.plain.write d).toList = some (n, []) := by
  by_cases hnear : ∃ steps, d = nearOverflow d.negative steps
  · obtain ⟨steps, hd⟩ := hnear
    obtain ⟨⟨n, rest⟩, hread, hrest⟩ :=
      Option.map_eq_some_iff.1 (readNumber_nearOverflow d.negative steps)
    rw [← hd] at hread
    exact ⟨n, hread.trans (by rw [← hrest])⟩
  have hsign (text : String) : ((if d.negative then "-" else "") ++ text).toList
      = signChars d.negative ++ text.toList := by
    rw [String.toList_append, signChars]
    split <;> rfl
  rw [DecimalLayout.write]
  by_cases hcoefficient : d.coefficient = 0
  · have hzero : d.isZero = true := by simp [Double.isZero, hcoefficient]
    rw [if_pos hzero, hsign]
    cases d.negative with
    | true => exact ⟨.double (.zero true), by decide +kernel⟩
    | false => exact ⟨.double (.zero false), by decide +kernel⟩
  · have hzero : ¬d.isZero = true := by simp [Double.isZero, hcoefficient]
    have hnormal := (shortest_spec hcoefficient).1
    have hreads {text : String} (h : Writes text.toList d.shortest.value) :
        ∃ n, readNumber ((if d.negative then "-" else "") ++ text).toList = some (n, []) := by
      obtain ⟨t, hchars, hvalue, hlength⟩ := h
      rw [hsign, ← hchars]
      exact exists_readNumber_chars t (wholeNumber_le hlength)
        (hvalue ▸ shortest_lt_overflow hcoefficient hnear) d.negative
    rw [if_neg hzero]
    dsimp only
    split
    · rename_i hrange
      exact hreads (writes_positional hnormal hrange.2)
    · exact hreads (writes_scientific hnormal)

end TypedClient.Json

/-! ## Values with integers of 64 bits -/

namespace TypedClient.Json

open TypedClient.Number (twoTo)

/-- A number that is an integer has 64 bits, with a sign or without. -/
def Number.InRange : Number → Prop
  | .integer n => -(twoTo 63 : Int) ≤ n ∧ n < twoTo 64
  | .double _ => True

/-- **The text of a number** of a document reads as a number. -/
theorem exists_readNumber_text {n : Number} (h : n.InRange) :
    ∃ m, readNumber n.text.toList = some (m, []) := by
  cases n with
  | integer n => exact ⟨_, readNumber_integer h.1 h.2⟩
  | double d => exact exists_readNumber_double d

/-- All integers in the value have 64 bits. -/
inductive InRange : Json → Prop
  /-- There are none in null. -/
  | null : InRange .null
  /-- There are none in a truth value. -/
  | bool (value : Bool) : InRange (.bool value)
  /-- The number is in range. -/
  | number {value : Number} (h : value.InRange) : InRange (.number value)
  /-- There are none in a text. -/
  | string (value : String) : InRange (.string value)
  /-- The items are in range. -/
  | array {items : List Json} (h : ∀ item ∈ items, InRange item) : InRange (.array items)
  /-- The members are in range. -/
  | object {members : List (String × Json)} (h : ∀ member ∈ members, InRange member.2) :
      InRange (.object members)

theorem inherited_inRange : Inherited InRange where
  items := fun _ h => by
    cases h with
    | array h => exact h
  members := fun _ h => by
    cases h with
    | object h => exact h
  insert := fun members key text h => by
    cases h with
    | object h =>
      refine .object fun member hmember => ?_
      rcases Dict.mem_of_mem_insert hmember with rfl | hmember
      · exact .string text
      · exact h member hmember

end TypedClient.Json
