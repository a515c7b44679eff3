/-!
# Punycode

Domain names are ASCII.  A label with other characters is written as its ASCII characters, a hyphen,
and digits that say which character goes in where: the characters are inserted in increasing order,
and each is told by how far it is from the one before, counted over all places and all code points.
The number of digits adapts to the distances seen so far.

* `encode` writes a label and `decode` reads it back.
-/

set_option autoImplicit false

namespace TypedClient.Url.Punycode

/-! ## Digits -/

/-- The character of a digit: letters, then decimal digits. -/
def digitChar (d : Nat) : Char :=
  if d < 26 then Char.ofNat ('a'.toNat + d) else Char.ofNat ('0'.toNat + d - 26)

/-- The value of a digit. -/
def digitValue? (c : Char) : Option Nat :=
  if 'a' ≤ c ∧ c ≤ 'z' then some (c.toNat - 'a'.toNat)
  else if 'A' ≤ c ∧ c ≤ 'Z' then some (c.toNat - 'A'.toNat)
  else if c.isDigit then some (c.toNat - '0'.toNat + 26)
  else none

/-- The value below which a digit is the last of its number. -/
def threshold (place bias : Nat) : Nat :=
  if place ≤ bias then 1 else min 26 (place - bias)

theorem threshold_bounds (place bias : Nat) :
    1 ≤ threshold place bias ∧ threshold place bias ≤ 26 := by
  unfold threshold
  split <;> omega

/-- Divides a distance until it is small; the divisions raise the bias. -/
def settle (distance bias : Nat) : Nat :=
  if 455 < distance then settle (distance / 35) (bias + 36)
  else bias + 36 * distance / (distance + 38)
termination_by distance
decreasing_by omega

/-- The bias after a distance has been written for one of `count` characters. -/
def adapt (distance count : Nat) (first : Bool) : Nat :=
  let scaled := if first then distance / 700 else distance / 2
  settle (scaled + scaled / count) 0

/-! ## Writing -/

/-- The digits of a distance. -/
def digits (bias place distance : Nat) : List Char :=
  let t := threshold place bias
  if distance < t then [digitChar distance]
  else
    digitChar (t + (distance - t) % (36 - t)) ::
      digits bias (place + 36) ((distance - t) / (36 - t))
termination_by distance
decreasing_by
  have h := threshold_bounds place bias
  have := Nat.div_le_self (distance - threshold place bias) (36 - threshold place bias)
  omega

/-- A label that is being written. -/
structure Writing where
  /-- The digits so far. -/
  output : List Char
  /-- The distance since the last character that was written. -/
  distance : Nat
  /-- The bias of the next digits. -/
  bias : Nat
  /-- How many characters have been written. -/
  count : Nat

/-- Goes past a character of the label in the turn of the code point `point`, writing it if it is
that one. -/
def Writing.pass (basic point : Nat) (w : Writing) (c : Char) : Writing :=
  if c.toNat < point then { w with distance := w.distance + 1 }
  else if c.toNat = point then
    { output := w.output ++ digits w.bias 36 w.distance
      distance := 0
      bias := adapt w.distance (w.count + 1) (w.count = basic)
      count := w.count + 1 }
  else w

/-- Gives the code points of the list, which increase, their turns, from `from` on. -/
def Writing.turns (label : List Char) (basic : Nat) (start : Nat) (w : Writing) :
    List Nat → Writing
  | [] => w
  | point :: rest =>
    let ready := { w with distance := w.distance + (point - start) * (w.count + 1) }
    let passed := label.foldl (Writing.pass basic point) ready
    Writing.turns label basic (point + 1) { passed with distance := passed.distance + 1 } rest

/-- The ASCII characters of a label. -/
def basicPart (label : List Char) : List Char := label.filter fun c => c.toNat < 0x80

/-- The list with a number put in its place, unless it is there. -/
def putInOrder (n : Nat) : List Nat → List Nat
  | [] => [n]
  | m :: rest =>
    if n < m then n :: m :: rest else if n = m then m :: rest else m :: putInOrder n rest

/-- The code points of a label beyond ASCII, in increasing order. -/
def widePoints (label : List Char) : List Nat :=
  (label.filter fun c => 0x80 ≤ c.toNat).foldl (fun points c => putInOrder c.toNat points) []

/-- A label in ASCII. -/
def encode (label : List Char) : List Char :=
  let basic := basicPart label
  let start : Writing := ⟨[], 0, 72, basic.length⟩
  let mark := if basic.isEmpty then [] else ['-']
  basic ++ mark ++ (start.turns label basic.length 0x80 (widePoints label)).output

/-! ## Reading -/

/-- Reads a distance that counts `weight` for its next digit, on top of `sum`. -/
def readDistance (bias : Nat) :
    List Char → (place weight sum : Nat) → Option (Nat × List Char)
  | [], _, _, _ => none
  | c :: rest, place, weight, sum =>
    match digitValue? c with
    | none => none
    | some d =>
      let t := threshold place bias
      if d < t then some (sum + d * weight, rest)
      else readDistance bias rest (place + 36) (weight * (36 - t)) (sum + d * weight)

/-- Inserts the characters that digits tell, at most `steps` of them. -/
def insertAll : (steps bias point position : Nat) → List Char → List Char → Option (List Char)
  | _, _, _, _, label, [] => some label
  | 0, _, _, _, _, _ => none
  | steps + 1, bias, point, position, label, text => do
    let (sum, rest) ← readDistance bias text 36 1 position
    let count := label.length + 1
    let point := point + sum / count
    if point < 0xD800 ∨ (0xDFFF < point ∧ point < 0x110000) then
      let place := sum % count
      insertAll steps (adapt (sum - position) count (position = 0)) point (place + 1)
        (label.take place ++ Char.ofNat point :: label.drop place) rest
    else none

/-- Reads a label written in ASCII.  The last hyphen ends its ASCII characters. -/
def decode (text : List Char) : Option (List Char) :=
  let tail := (text.reverse.takeWhile (· != '-')).reverse
  let basic := (text.take (text.length - tail.length)).dropLast
  insertAll (tail.length + 1) 72 0x80 0 basic tail

end TypedClient.Url.Punycode
