import TypedClient.Json.Quoted
import TypedClient.Text.Utf8

/-!
# Percent encoding

Characters that have a meaning of their own in a part of a URL, and all characters beyond ASCII, are
written as their UTF-8 bytes, each as a percent sign and two upper-case digits.  Which ASCII
characters those are depends on the part.

* `encode` writes a text for a part, given the characters that the part does not show;
* `hiddenInFragment`, `hiddenInPath`, `hiddenInSegment`, `hiddenInUserinfo` and `hiddenInQuery` say
  which these are;
* `decode` reads encoded bytes back.
-/

set_option autoImplicit false

namespace TypedClient.Url

open TypedClient.Text

/-- A percent sign and the two digits of a byte. -/
def encodeByte (b : UInt8) : List Char :=
  '%' :: (Json.hexText 2 b.toNat).map Char.toUpper

/-- One character, encoded if it is beyond ASCII or hidden. -/
def encodeChar (hidden : Char → Bool) (c : Char) : List Char :=
  if 0x7F < c.toNat || hidden c then (String.utf8EncodeChar c).flatMap encodeByte else [c]

/-- A text with the hidden characters encoded. -/
def encode (hidden : Char → Bool) (text : List Char) : List Char := text.flatMap (encodeChar hidden)

/-- The controls of ASCII. -/
def isControl (c : Char) : Bool := c.toNat < 0x20 || c.toNat == 0x7F

/-- The characters that a fragment does not show. -/
def hiddenInFragment (c : Char) : Bool := isControl c || " \"<>\x60".toList.contains c

/-- The characters that a path does not show. -/
def hiddenInPath (c : Char) : Bool := hiddenInFragment c || "#?\x7b\x7d".toList.contains c

/-- The characters that a segment does not show when it is added to a path. -/
def hiddenInSegment (c : Char) : Bool := hiddenInPath c || "/%\\".toList.contains c

/-- The characters that user name and password do not show. -/
def hiddenInUserinfo (c : Char) : Bool := hiddenInPath c || "/:;=@[\\]^|".toList.contains c

/-- The characters that the query of a web address does not show. -/
def hiddenInQuery (c : Char) : Bool := isControl c || " \"#<>'".toList.contains c

/-- The value of a hexadecimal digit in ASCII. -/
def hexDigit? (b : UInt8) : Option Nat := Json.hexValue? (Char.ofNat b.toNat)

/-- The bytes with encoded ones decoded; a percent sign without two digits stands for itself. -/
def decode : Bytes → Bytes
  | [] => []
  | a :: rest =>
    if a = 0x25 then
      match rest with
      | h :: l :: after =>
        match hexDigit? h, hexDigit? l with
        | some h, some l => UInt8.ofNat (16 * h + l) :: decode after
        | _, _ => a :: decode (h :: l :: after)
      | rest => a :: decode rest
    else a :: decode rest
termination_by bytes => bytes.length

end TypedClient.Url
