import TypedClient.Number.Double

/-!
# The shortest decimal of a double

Among the decimals that round to a given double there is one with the fewest digits, and among
those one that is nearest to the double.  `Double.shortest` finds it by trying grids: for one
digit, two digits and so on the value lies between two neighbouring points of the decimal grid,
and the first grid with a neighbour inside the rounding interval wins.  Seventeen digits always
suffice.

* `RoundingInterval` holds the value and the ends of the interval of numbers that round to it, as
  integers over one common scale;
* `Decimal` is a digit string with the power of ten of its first digit.
-/

set_option autoImplicit false

namespace TypedClient.Number

/-- A decimal in scientific form: `d₁.d₂d₃… · 10 ^ power`. -/
structure Decimal where
  /-- The significant digits, first to last. -/
  digits : List Nat
  /-- The power of ten of the first digit. -/
  power : Int
  deriving DecidableEq, Repr

/-- A positive value with the interval of numbers that round to it; all three bounds are over the
same denominator. -/
structure RoundingInterval where
  /-- The lower end. -/
  low : Nat
  /-- The value itself. -/
  value : Nat
  /-- The upper end. -/
  high : Nat
  /-- The common denominator. -/
  den : Nat
  /-- Whether the ends themselves round to the value. -/
  closed : Bool

namespace RoundingInterval

/-- The interval of a double: half a step to each side, and a quarter of one below a power of two,
where the steps get smaller.  The ends belong to it when the coefficient is even. -/
def ofDouble (d : Double) : RoundingInterval :=
  let below := if d.coefficient = twoTo 52 ∧ d.exponent ≠ leastExponent then 1 else 2
  let up := twoTo d.exponent.toNat
  { low := (4 * d.coefficient - below) * up
    value := 4 * d.coefficient * up
    high := (4 * d.coefficient + 2) * up
    den := 4 * twoTo (-d.exponent).toNat
    closed := d.coefficient % 2 == 0 }

/-- Whether `digits · 10 ^ power` lies in the interval. -/
def holds (i : RoundingInterval) (digits : Nat) (power : Int) : Bool :=
  let point := digits * tenTo power.toNat * i.den
  let scale := tenTo (-power).toNat
  if i.closed then i.low * scale ≤ point && point ≤ i.high * scale
  else i.low * scale < point && point < i.high * scale

/-- The power of ten of the first digit of the value. -/
def leadingPower (i : RoundingInterval) : Int :=
  if i.den ≤ i.value then ((Nat.toDigits 10 (i.value / i.den)).length : Int) - 1
  else
    let places := (Nat.toDigits 10 (i.den / i.value)).length
    if i.value * tenTo (places - 1) = i.den then -((places : Int) - 1) else -(places : Int)

/-- The point of the grid of multiples of `10 ^ power` inside the interval, the nearer of two; of
two equally near the one with the even last digit. -/
def gridPoint? (i : RoundingInterval) (power : Int) : Option Nat :=
  let num := i.value * tenTo (-power).toNat
  let den := i.den * tenTo power.toNat
  let floor := num / den
  match i.holds floor power, i.holds (floor + 1) power with
  | true, true => some (Double.roundHalfEven num den)
  | true, false => some floor
  | false, true => some (floor + 1)
  | false, false => none

/-- The first grid that has a point in the interval, from the given number of digits on, with at
most `fuel` further ones. -/
def firstGrid (i : RoundingInterval) (leading : Int) : (count fuel : Nat) → Nat × Int
  | count, 0 => (0, leading - count)
  | count, fuel + 1 =>
    let power := leading - count
    match i.gridPoint? power with
    | some point => (point, power)
    | none => firstGrid i leading (count + 1) fuel

end RoundingInterval

/-- The digits of a number without the zeros at its end; the list of zero is empty. -/
def significantDigits (n : Nat) : List Nat :=
  (((Nat.toDigits 10 n).map fun c => c.toNat - '0'.toNat).reverse.dropWhile (· == 0)).reverse

/-- The shortest decimal that rounds to the magnitude of the double, the nearest of those.  The
magnitude is not zero. -/
def Double.shortest (d : Double) : Decimal :=
  let i := RoundingInterval.ofDouble d
  let (point, power) := i.firstGrid i.leadingPower 0 17
  let places := (Nat.toDigits 10 point).length
  ⟨significantDigits point, power + places - 1⟩

end TypedClient.Number
