import TypedClient.Number.Shortest

/-!
# Laying out a decimal

Which decimal stands for a double is one question, how it is written another.  A `DecimalLayout`
collects the decisions of the second kind, and `DecimalLayout.write` carries them out.

* `plain` is the layout of numbers in this library's JSON text: positional from `0.00001` up to
  `10 ^ 16`, with `.0` after whole numbers, and outside that range one digit before the point
  and a signed exponent (`1e+16`, `1.5e-7`).
-/

set_option autoImplicit false

namespace TypedClient.Number

/-- How decimals are written. -/
structure DecimalLayout where
  /-- The least power of ten of a first digit that is still written positionally. -/
  leastPositional : Int
  /-- The greatest such power. -/
  greatestPositional : Int
  /-- What follows a whole number written positionally. -/
  wholeEnd : String
  /-- What introduces a non-negative exponent. -/
  plusExponent : String
  /-- What introduces a negative exponent, before its magnitude. -/
  minusExponent : String
  /-- How positive zero is written. -/
  zero : String

namespace DecimalLayout

/-- The layout of numbers in JSON text. -/
def plain : DecimalLayout :=
  { leastPositional := -5
    greatestPositional := 15
    wholeEnd := ".0"
    plusExponent := "e+"
    minusExponent := "e-"
    zero := "0.0" }

/-- The characters of a list of digits. -/
def digitText (ds : List Nat) : String := String.ofList (ds.map Nat.digitChar)

/-- A run of zeros. -/
def zeros (n : Nat) : String := String.ofList (List.replicate n '0')

/-- A decimal written positionally. -/
def positional (l : DecimalLayout) (d : Decimal) : String :=
  if 0 ≤ d.power then
    let whole := d.power.toNat + 1
    if d.digits.length ≤ whole then
      digitText d.digits ++ zeros (whole - d.digits.length) ++ l.wholeEnd
    else digitText (d.digits.take whole) ++ "." ++ digitText (d.digits.drop whole)
  else "0." ++ zeros ((-d.power).toNat - 1) ++ digitText d.digits

/-- A decimal written with an exponent. -/
def scientific (l : DecimalLayout) (d : Decimal) : String :=
  let mantissa :=
    match d.digits with
    | [] => "0"
    | [digit] => digitText [digit]
    | digit :: rest => digitText [digit] ++ "." ++ digitText rest
  if 0 ≤ d.power then mantissa ++ l.plusExponent ++ toString d.power.toNat
  else mantissa ++ l.minusExponent ++ toString (-d.power).toNat

/-- The shortest text of a double that reads back, in this layout. -/
def write (l : DecimalLayout) (d : Double) : String :=
  let sign := if d.negative then "-" else ""
  if d.isZero then sign ++ l.zero
  else
    let decimal := d.shortest
    if l.leastPositional ≤ decimal.power ∧ decimal.power ≤ l.greatestPositional then
      sign ++ l.positional decimal
    else sign ++ l.scientific decimal

end DecimalLayout

end TypedClient.Number
