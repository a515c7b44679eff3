import TypedClient.Text.CharClass

/-!
# Quoted text

A JSON string literal writes a text between quotation marks.  Quotation marks, backslashes and the
controls below the blank are escaped, by a letter where there is one and by their number in four
lower-case hexadecimal digits otherwise; every other character stands for itself.

* `quoteChars` escapes a text and `quote` adds the marks;
* `unquoteChars` reads the body of a literal up to its closing mark.  It also reads what `quote`
  never writes: escaped slashes, and numbers in either case, in pairs for the characters beyond
  the basic plane.

Messages show a text between quotation marks so that nothing in it can be overlooked: controls,
unassigned characters, separators other than the blank and characters that would join the one
before them appear by number, as `\u{301}`.

* `displayText` and `displayPath` show a text or a path, in double quotation marks;
* `displayChar` shows a character, in single ones.
-/

set_option autoImplicit false

namespace TypedClient.Json

/-- The lower-case hexadecimal digits of a number, at least `width` of them. -/
def hexText (width n : Nat) : List Char :=
  let digits := Nat.toDigits 16 n
  List.replicate (width - digits.length) '0' ++ digits

/-- The characters that stand for one character in a literal. -/
def escape (c : Char) : List Char :=
  if c = '"' then ['\\', '"']
  else if c = '\\' then ['\\', '\\']
  else if 0x20 ≤ c.toNat then [c]
  else if c = '\x08' then ['\\', 'b']
  else if c = '\t' then ['\\', 't']
  else if c = '\n' then ['\\', 'n']
  else if c = '\x0c' then ['\\', 'f']
  else if c = '\r' then ['\\', 'r']
  else '\\' :: 'u' :: hexText 4 c.toNat

/-- The body of the literal of a text. -/
def quoteChars (cs : List Char) : List Char := cs.flatMap escape

/-- The literal of a text. -/
def quote (s : String) : String := String.ofList ('"' :: quoteChars s.toList ++ ['"'])

/-- The value of a hexadecimal digit. -/
def hexValue? (c : Char) : Option Nat :=
  if '0' ≤ c ∧ c ≤ '9' then some (c.toNat - '0'.toNat)
  else if 'a' ≤ c ∧ c ≤ 'f' then some (c.toNat - 'a'.toNat + 10)
  else if 'A' ≤ c ∧ c ≤ 'F' then some (c.toNat - 'A'.toNat + 10)
  else none

/-- The number that four hexadecimal digits write. -/
def hexQuad? (a b c d : Char) : Option Nat := do
  return (((← hexValue? a) * 16 + (← hexValue? b)) * 16 + (← hexValue? c)) * 16 + (← hexValue? d)

/-- The character a one-letter escape stands for. -/
def unescape? (c : Char) : Option Char :=
  if c = '"' ∨ c = '\\' ∨ c = '/' then some c
  else if c = 'b' then some '\x08'
  else if c = 't' then some '\t'
  else if c = 'n' then some '\n'
  else if c = 'f' then some '\x0c'
  else if c = 'r' then some '\r'
  else none

/-- The character beyond the basic plane that a pair of surrogate numbers stands for. -/
def surrogatePair? (high low : Nat) : Option Char :=
  if 0xDC00 ≤ low ∧ low < 0xE000 then
    some (Char.ofNat (0x10000 + (high - 0xD800) * 0x400 + (low - 0xDC00)))
  else none

/-- Reads the body of a literal: the characters up to the closing mark, and what follows the mark.
There is none for a literal that does not close, a bare control character, an unknown escape or a
surrogate number without its partner. -/
def unquoteChars : List Char → Option (List Char × List Char)
  | [] => none
  | c :: rest =>
    if c = '"' then some ([], rest)
    else if c ≠ '\\' then
      if c.toNat < 0x20 then none
      else (unquoteChars rest).map fun (body, after) => (c :: body, after)
    else
      match rest with
      | [] => none
      | e :: rest =>
        if e ≠ 'u' then do
          let plain ← unescape? e
          let (body, after) ← unquoteChars rest
          return (plain :: body, after)
        else
          match rest with
          | h₁ :: h₂ :: h₃ :: h₄ :: rest =>
            match hexQuad? h₁ h₂ h₃ h₄ with
            | none => none
            | some n =>
              if n < 0xD800 ∨ 0xE000 ≤ n then
                (unquoteChars rest).map fun (body, after) => (Char.ofNat n :: body, after)
              else if 0xDC00 ≤ n then none
              else
                match rest with
                | slash :: u :: l₁ :: l₂ :: l₃ :: l₄ :: rest =>
                  if slash = '\\' ∧ u = 'u' then do
                    let wide ← surrogatePair? n (← hexQuad? l₁ l₂ l₃ l₄)
                    let (body, after) ← unquoteChars rest
                    return (wide :: body, after)
                  else none
                | _ => none
          | _ => none

end TypedClient.Json

namespace TypedClient.Text

/-! ## Texts in messages -/

/-- How one character is shown where the given quotation marks are taken. -/
def displayedChar (marks : List Char) (c : Char) : List Char :=
  if c = '\x00' then ['\\', '0']
  else if c = '\t' then ['\\', 't']
  else if c = '\r' then ['\\', 'r']
  else if c = '\n' then ['\\', 'n']
  else if c = '\\' ∨ c ∈ marks then ['\\', c]
  else if isExtender c || isUnprintable c then
    ['\\', 'u', '\x7b'] ++ Json.hexText 1 c.toNat ++ ['\x7d']
  else [c]

/-- A text as messages show it. -/
def displayText (s : String) : String :=
  String.ofList ('"' :: s.toList.flatMap (displayedChar ['"']) ++ ['"'])

/-- A character as messages show it. -/
def displayChar (c : Char) : String :=
  String.ofList ('\x27' :: displayedChar ['\x27'] c ++ ['\x27'])

/-- A path as messages show it; quotation marks of both kinds are taken. -/
def displayPath (s : String) : String :=
  String.ofList ('"' :: s.toList.flatMap (displayedChar ['"', '\x27']) ++ ['"'])

/-- A list of texts as messages show it. -/
def displayTexts (texts : List String) : String :=
  "[" ++ String.intercalate ", " (texts.map displayText) ++ "]"

end TypedClient.Text
