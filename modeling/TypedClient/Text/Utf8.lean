/-!
# UTF-8

* `encodeUtf8` writes a text as bytes;
* `decodeUtf8` reads bytes into characters.  A byte sequence that is not UTF-8 is cut into its
  maximal bad parts: a part is the longest start of a character's encoding that breaks off, or one
  byte that starts no character.  Each is reported in its place;
* `decodeUtf8?` accepts well-formed bytes only, and `decodeUtf8Lossy` puts the replacement
  character for every bad part.
-/

set_option autoImplicit false

namespace TypedClient.Text

/-- A sequence of bytes. -/
abbrev Bytes := List UInt8

/-- The bytes of a text. -/
def encodeUtf8 (s : String) : Bytes := s.toList.flatMap String.utf8EncodeChar

/-- Whether the byte continues a character. -/
def isTail (b : UInt8) : Bool := 0x80 ≤ b && b ≤ 0xBF

/-- How many bytes follow a first byte; nothing for a byte that starts no character. -/
def tailCount? (a : UInt8) : Option Nat :=
  if a < 0x80 then some 0
  else if a < 0xC2 then none
  else if a < 0xE0 then some 1
  else if a < 0xF0 then some 2
  else if a < 0xF5 then some 3
  else none

/-- Whether `b` may come second after the first byte `a`.  The narrower ranges keep out encodings
that are too long, surrogates, and numbers beyond the last code point. -/
def isSecond (a b : UInt8) : Bool :=
  if a = 0xE0 then 0xA0 ≤ b && b ≤ 0xBF
  else if a = 0xED then 0x80 ≤ b && b ≤ 0x9F
  else if a = 0xF0 then 0x90 ≤ b && b ≤ 0xBF
  else if a = 0xF4 then 0x80 ≤ b && b ≤ 0x8F
  else isTail b

/-- The six payload bits of a byte that continues a character. -/
def payload (b : UInt8) : Nat := b.toNat % 0x40

/-- Reads the character that starts with the byte `a`: the character, or nothing for a bad part,
and how many of the bytes that follow belong to it. -/
def leadingChar (a : UInt8) (rest : Bytes) : Option Char × Nat :=
  match tailCount? a, rest with
  | none, _ => (none, 0)
  | some 0, _ => (some (Char.ofNat a.toNat), 0)
  | some _, [] => (none, 0)
  | some count, b :: more =>
    if !isSecond a b then (none, 0)
    else if count = 1 then (some (Char.ofNat (a.toNat % 0x20 * 0x40 + payload b)), 1)
    else
      match more with
      | [] => (none, 1)
      | c :: more =>
        if !isTail c then (none, 1)
        else if count = 2 then
          (some (Char.ofNat ((a.toNat % 0x10 * 0x40 + payload b) * 0x40 + payload c)), 2)
        else
          match more with
          | [] => (none, 2)
          | d :: _ =>
            if !isTail d then (none, 2)
            else
              let high := (a.toNat % 0x08 * 0x40 + payload b) * 0x40 + payload c
              (some (Char.ofNat (high * 0x40 + payload d)), 3)

/-- The characters of a byte sequence; a missing one stands for a maximal bad part. -/
def decodeUtf8 : Bytes → List (Option Char)
  | [] => []
  | a :: rest => (leadingChar a rest).1 :: decodeUtf8 (rest.drop (leadingChar a rest).2)
termination_by bytes => bytes.length
decreasing_by simp only [List.length_drop, List.length_cons]; omega

/-- The text of well-formed bytes. -/
def decodeUtf8? (bytes : Bytes) : Option String :=
  ((decodeUtf8 bytes).mapM id).map String.ofList

/-- The text of any bytes, with the replacement character in place of every bad part. -/
def decodeUtf8Lossy (bytes : Bytes) : String :=
  String.ofList ((decodeUtf8 bytes).map (·.getD '\ufffd'))

end TypedClient.Text
