import TypedClient.Json.Basic
import TypedClient.Text.Split

/-!
# Reading numbers

An integer is read exactly as long as it fits 64 bits.  Every other number becomes a double: of its
digits the leading ones that fit 64 bits are kept, their value is rounded to a double, and that is
multiplied or divided once by the power of ten that is due.  Two roundings can differ from one by
the last bit, so `0.1` and `1.5` are what one expects but a number of twenty digits may not be the
double nearest to its text.

* `Significand` collects digits; `Significand.toDouble?` scales them;
* `readNumber` reads the longest number at the start of a text.
-/

set_option autoImplicit false

namespace TypedClient.Json

open TypedClient.Number (Double tenTo twoTo)
open TypedClient.Text (digitValue numberOfDigits)

/-- The greatest significand. -/
def significandLimit : Nat := twoTo 64 - 1

/-- The digits of a number, up to the limit, and the power of ten they stand at. -/
structure Significand where
  /-- The kept digits, as a number. -/
  digits : Nat
  /-- The power of ten of the last kept digit. -/
  power : Int

/-- Collects the digits before the point; once one does not fit, it and the later ones only raise
the power. -/
def Significand.addWhole (s : Significand) : List Char → Significand
  | [] => s
  | c :: rest =>
    let next := s.digits * 10 + digitValue c
    if next ≤ significandLimit then Significand.addWhole { s with digits := next } rest
    else { s with power := s.power + (rest.length + 1) }

/-- Collects the digits after the point, up to the first that does not fit. -/
def Significand.addFraction (s : Significand) : List Char → Significand
  | [] => s
  | c :: rest =>
    let next := s.digits * 10 + digitValue c
    if next ≤ significandLimit then
      Significand.addFraction { digits := next, power := s.power - 1 } rest
    else s

/-- A double times a power of ten of at most 308, up or down. -/
def scaleOnce? (d : Double) (power : Int) : Option Double := do
  let factor ← Double.ofNat? (tenTo power.natAbs)
  if 0 ≤ power then d.mul? factor else d.div? factor

/-- A double times a power of ten.  There is none when the result is beyond the largest double.
Below `10 ^ -308` the scaling goes in steps of that size until nothing is left, which happens
within the given number of steps for every significand. -/
def scaleTen? (d : Double) (power : Int) : (steps : Nat) → Option Double
  | 0 => some (Double.zero d.negative)
  | steps + 1 =>
    if power.natAbs ≤ 308 then scaleOnce? d power
    else if d.isZero then some d
    else if 0 ≤ power then none
    else (scaleOnce? d (-308)).bind fun smaller => scaleTen? smaller (power + 308) steps

/-- The double a signed significand stands for. -/
def Significand.toDouble? (s : Significand) (negative : Bool) : Option Double := do
  let magnitude ← scaleTen? (← Double.ofNat? s.digits) s.power 4
  return if negative then magnitude.neg else magnitude

/-- The integer that digits write, if a number without point and exponent stays an integer: it has
to fit 64 bits, with or without sign, and minus zero is a double. -/
def exactInteger? (negative : Bool) (s : Significand) : Option Int :=
  if s.power ≠ 0 then none
  else if !negative then some s.digits
  else if 0 < s.digits ∧ s.digits ≤ twoTo 63 then some (-(s.digits : Int))
  else none

/-- Reads the exponent at the start of a text, if there is one: the letter, an optional sign and
at least one digit. -/
def readExponent : List Char → Option (Option Int × List Char)
  | c :: rest =>
    if c = 'e' ∨ c = 'E' then
      let (negative, rest) :=
        match rest with
        | '-' :: rest => (true, rest)
        | '+' :: rest => (false, rest)
        | rest => (false, rest)
      let digits := rest.takeWhile Char.isDigit
      if digits.isEmpty then none
      else
        let magnitude := numberOfDigits digits
        some (some (if negative then -(magnitude : Int) else magnitude),
          rest.dropWhile Char.isDigit)
    else some (none, c :: rest)
  | [] => some (none, [])

/-- Reads the number at the start of a text, and what follows it.  A leading zero stands alone, and
a point has digits on both sides. -/
def readNumber (text : List Char) : Option (Json.Number × List Char) :=
  let (negative, text) :=
    match text with
    | '-' :: rest => (true, rest)
    | rest => (false, rest)
  let whole := text.takeWhile Char.isDigit
  let afterWhole := text.dropWhile Char.isDigit
  if whole.isEmpty ∨ (whole.head? = some '0' ∧ 1 < whole.length) then none
  else
    let s := Significand.addWhole ⟨0, 0⟩ whole
    let fraction? : Option (Option Significand × List Char) :=
      match afterWhole with
      | '.' :: rest =>
        let digits := rest.takeWhile Char.isDigit
        if digits.isEmpty then none
        else some (some (s.addFraction digits), rest.dropWhile Char.isDigit)
      | rest => some (none, rest)
    match fraction? with
    | none => none
    | some (fraction, afterFraction) =>
      match readExponent afterFraction with
      | none => none
      | some (exponent, rest) =>
        let integer? :=
          if fraction.isNone ∧ exponent.isNone then exactInteger? negative s else none
        match integer? with
        | some n => some (.integer n, rest)
        | none =>
          let s := fraction.getD s
          let scaled : Significand := { s with power := s.power + exponent.getD 0 }
          (scaled.toDouble? negative).map fun d => (.double d, rest)

end TypedClient.Json
