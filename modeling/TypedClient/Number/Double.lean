/-!
# Double-precision numbers

A finite double is a sign and a value `coefficient · 2 ^ exponent` in canonical form: the
coefficient has at most 53 bits, and it has exactly 53 unless the exponent is already the least
one.  In that form equal representations are equal numbers, the two zeros apart, so everything a
reader or printer of numbers asks can be answered in exact integer arithmetic.

* `twoTo` and `tenTo` are the powers that numbers and addresses are laid out in;
* `Double.nearest?` is the one rounding: the double nearest to a rational number, ties to the even
  coefficient, and nothing when the number is beyond the largest double;
* `Double.ofNat?`, `Double.mul?` and `Double.div?` are it, applied to exact results;
* `Double.agrees` is numeric equality, which unlike `=` identifies the two zeros.
-/

set_option autoImplicit false

namespace TypedClient.Number

/-! ## Powers -/

/-- The power of two with the given exponent. -/
def twoTo (exponent : Nat) : Nat := Nat.pow 2 exponent

/-- The power of ten with the given exponent. -/
def tenTo (exponent : Nat) : Nat := Nat.pow 10 exponent

/-! ## Doubles -/

/-- The exponent of the smallest doubles. -/
def leastExponent : Int := -1074

/-- The exponent of the largest doubles. -/
def greatestExponent : Int := 971

/-- The condition on a coefficient and an exponent under which every finite double is written in
exactly one way. -/
def IsCanonical (coefficient : Nat) (exponent : Int) : Prop :=
  coefficient < twoTo 53 ∧ leastExponent ≤ exponent ∧ exponent ≤ greatestExponent ∧
    (twoTo 52 ≤ coefficient ∨ exponent = leastExponent)

instance (coefficient : Nat) (exponent : Int) : Decidable (IsCanonical coefficient exponent) :=
  inferInstanceAs (Decidable (_ ∧ _))

/-- A finite double-precision number, `± coefficient · 2 ^ exponent`. -/
structure Double where
  /-- Whether the sign is minus; zero has both signs. -/
  negative : Bool
  /-- The significant bits. -/
  coefficient : Nat
  /-- The power of two the coefficient is scaled by. -/
  exponent : Int
  /-- The form is the canonical one. -/
  canonical : IsCanonical coefficient exponent
  deriving DecidableEq

namespace Double

/-- Zero with the given sign. -/
def zero (negative : Bool) : Double := ⟨negative, 0, leastExponent, by decide⟩

instance : Inhabited Double := ⟨zero false⟩

/-- The same magnitude with the other sign. -/
def neg (d : Double) : Double := { d with negative := !d.negative }

/-- Whether the number is one of the two zeros. -/
def isZero (d : Double) : Bool := d.coefficient == 0

/-- Numeric equality: the two zeros agree, other doubles agree when they are the same. -/
def agrees (a b : Double) : Bool := (a.isZero && b.isZero) || decide (a = b)

/-- The integer nearest to `num / den`, a tie going to the even one. -/
def roundHalfEven (num den : Nat) : Nat :=
  let quotient := num / den
  let doubled := 2 * (num % den)
  if doubled < den then quotient
  else if den < doubled then quotient + 1
  else if quotient % 2 = 0 then quotient
  else quotient + 1

/-- `num / den · 2 ^ shift`, rounded to an integer. -/
def scaledRound (num den : Nat) (shift : Int) : Nat :=
  if 0 ≤ shift then roundHalfEven (num * twoTo shift.toNat) den
  else roundHalfEven num (den * twoTo (-shift).toNat)

/-- An exponent at which `num / den · 2 ^ scale` has a coefficient of 53 or 54 bits, or the least
exponent if that is greater.  `num` is positive. -/
def trialExponent (num den : Nat) (scale : Int) : Int :=
  max leastExponent ((num.log2 : Int) - (den.log2 : Int) + scale - 53)

/-- The double nearest to `± num / den · 2 ^ scale`, a tie going to the even coefficient; nothing
when that lies beyond the largest double.  `den` is positive.

The exponent is tried from below: if the coefficient comes out with more than 53 bits, it is
rounded anew from the exact value at the next exponent, so that no number is rounded twice. -/
def nearest? (negative : Bool) (num den : Nat) (scale : Int) : Option Double :=
  if num = 0 then some (zero negative)
  else
    let low := trialExponent num den scale
    let first := scaledRound num den (scale - low)
    let (coefficient, exponent) :=
      if first < twoTo 53 then (first, low)
      else
        let second := scaledRound num den (scale - (low + 1))
        if second < twoTo 53 then (second, low + 1)
        else (scaledRound num den (scale - (low + 2)), low + 2)
    if h : IsCanonical coefficient exponent then some ⟨negative, coefficient, exponent, h⟩ else none

/-- The double nearest to a natural number. -/
def ofNat? (n : Nat) : Option Double := nearest? false n 1 0

/-- The double nearest to the product of two doubles. -/
def mul? (a b : Double) : Option Double :=
  nearest? (a.negative != b.negative) (a.coefficient * b.coefficient) 1 (a.exponent + b.exponent)

/-- The double nearest to the quotient of two doubles; the divisor is not zero. -/
def div? (a b : Double) : Option Double :=
  nearest? (a.negative != b.negative) a.coefficient b.coefficient (a.exponent - b.exponent)

/-- The double nearest to `± digits · 10 ^ power`. -/
def ofDecimal? (negative : Bool) (digits : Nat) (power : Int) : Option Double :=
  if 0 ≤ power then nearest? negative (digits * tenTo power.toNat) 1 0
  else nearest? negative digits (tenTo (-power).toNat) 0

end Double

end TypedClient.Number
