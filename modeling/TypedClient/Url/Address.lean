import TypedClient.Json.Quoted
import TypedClient.Number.Double
import TypedClient.Text.Split

/-!
# Numeric addresses

* `ipv4?` reads an address of four bytes.  Its numbers may be decimal, octal or hexadecimal, and the
  last one may stand for several bytes;
* `ipv6?` reads an address of eight pieces, and `ipv6Text` writes it with the longest run of zeros
  left out.
-/

set_option autoImplicit false

namespace TypedClient.Url

open TypedClient.Number (twoTo)
open TypedClient.Text

/-! ## Four bytes -/

/-- Reads digits of a base, of which there may be none. -/
def readBase? (base : Nat) (digits : List Char) : Option Nat :=
  digits.foldlM (fun n c =>
    match Json.hexValue? c with
    | some d => if d < base then some (base * n + d) else none
    | none => none) 0

/-- Reads a part of an address, in the base its start tells. -/
def ipv4Part? : List Char → Option Nat
  | [] => none
  | '0' :: 'x' :: digits | '0' :: 'X' :: digits => readBase? 16 digits
  | '0' :: c :: digits => readBase? 8 (c :: digits)
  | digits => readBase? 10 digits

/-- The parts of a name between its dots, without an empty last one. -/
def dotted (name : List Char) : List (List Char) :=
  let parts := splitOn '.' name
  if parts.getLast? = some [] then parts.dropLast else parts

/-- Whether the last part of a name is a number; such a name has to be an address. -/
def endsInNumber (name : List Char) : Bool :=
  match (dotted name).getLast? with
  | some last => (!last.isEmpty && last.all Char.isDigit) || (ipv4Part? last).isSome
  | none => false

/-- The number of an address, given its parts: each but the last is a byte, and the last takes up
the bytes that are left. -/
def ipv4Number? (parts : List Nat) : Option Nat :=
  match parts.getLast? with
  | none => none
  | some last =>
    let bytes := parts.dropLast
    if 3 < bytes.length ∨ bytes.any (255 < ·) ∨ twoTo (8 * (4 - bytes.length)) ≤ last then none
    else some (bytes.foldl (fun n b => 256 * n + b) 0 * twoTo (8 * (4 - bytes.length)) + last)

/-- Reads an address. -/
def ipv4? (name : List Char) : Option Nat := do
  let parts ← (dotted name).mapM ipv4Part?
  if parts.any (twoTo 32 ≤ ·) then none else ipv4Number? parts

/-- The text of an address. -/
def ipv4Text (n : Nat) : String :=
  ".".intercalate ([24, 16, 8, 0].map fun shift => toString (n / twoTo shift % 256))

/-! ## Eight pieces -/

/-- The pieces of an address read so far, last first, and how many of them stand before the colons
that leave pieces out. -/
structure Ipv6Draft where
  /-- The pieces, last first. -/
  reversed : List Nat
  /-- How many pieces precede those left out. -/
  gap : Option Nat

/-- The draft with pieces behind those read so far. -/
def Ipv6Draft.push (d : Ipv6Draft) (pieces : List Nat) : Ipv6Draft :=
  { d with reversed := pieces.reverse ++ d.reversed }

/-- All eight pieces, if the draft has that many or leaves some out. -/
def Ipv6Draft.finish (d : Ipv6Draft) : Option (List Nat) :=
  let pieces := d.reversed.reverse
  match d.gap with
  | some gap =>
    if 8 < pieces.length then none
    else some (pieces.take gap ++ List.replicate (8 - pieces.length) 0 ++ pieces.drop gap)
  | none => if pieces.length = 8 then some pieces else none

/-- A decimal number of a byte, without zeros before it. -/
def decimalByte? (digits : List Char) : Option Nat :=
  match readDigits? digits with
  | some n => if 255 < n ∨ (1 < digits.length ∧ digits.head? = some '0') then none else some n
  | none => none

/-- The two pieces that an address of four bytes makes at the end of an address. -/
def embeddedIpv4? (text : List Char) : Option (List Nat) :=
  match (splitOn '.' text).mapM decimalByte? with
  | some [a, b, c, d] => some [256 * a + b, 256 * c + d]
  | _ => none

/-- Reads pieces up to the end of an address, at most `steps` of them. -/
def readPieces (d : Ipv6Draft) : (steps : Nat) → List Char → Option (List Nat)
  | 0, _ => none
  | _, [] => d.finish
  | steps + 1, text =>
    if 8 ≤ d.reversed.length then none
    else
      match text with
      | ':' :: rest =>
        if d.gap.isSome then none
        else readPieces ⟨0 :: d.reversed, some (d.reversed.length + 1)⟩ steps rest
      | text =>
        let digits := (text.take 4).takeWhile fun c => (Json.hexValue? c).isSome
        match text.drop digits.length with
        | [] => (readBase? 16 digits).bind fun n => (d.push [n]).finish
        | ':' :: rest =>
          if rest.isEmpty then none
          else (readBase? 16 digits).bind fun n => readPieces (d.push [n]) steps rest
        | '.' :: _ =>
          if digits.isEmpty ∨ 6 < d.reversed.length then none
          else (embeddedIpv4? text).bind fun two => (d.push two).finish
        | _ => none

/-- Reads an address from between its brackets. -/
def ipv6? (text : List Char) : Option (List Nat) :=
  match text with
  | ':' :: ':' :: rest => readPieces ⟨[0], some 1⟩ (rest.length + 1) rest
  | ':' :: _ | [] | [_] => none
  | text => readPieces ⟨[], none⟩ (text.length + 1) text

/-- How many zeros a list starts with. -/
def leadingZeros (pieces : List Nat) : Nat := (pieces.takeWhile (· == 0)).length

/-- The place and the length of the longest run of zeros that has two or more. -/
def longestZeros? (pieces : List Nat) : Option (Nat × Nat) :=
  let runs := (List.range pieces.length).map fun i => (i, leadingZeros (pieces.drop i))
  let longest := (runs.map Prod.snd).foldl max 0
  if longest < 2 then none else runs.find? (·.2 = longest)

/-- The text of an address, with brackets. -/
def ipv6Text (pieces : List Nat) : String :=
  let write (pieces : List Nat) : String :=
    ":".intercalate (pieces.map fun n => String.ofList (Json.hexText 1 n))
  let body :=
    match longestZeros? pieces with
    | some (place, length) =>
      write (pieces.take place) ++ "::" ++ write (pieces.drop (place + length))
    | none => write pieces
  "[" ++ body ++ "]"

end TypedClient.Url
