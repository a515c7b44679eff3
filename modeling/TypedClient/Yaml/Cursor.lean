/-!
# Reading positions

A cursor is what is left of a text, with the line and the column it starts at.  Columns and lines
count from zero.  Texts are read with their line breaks made alike first: `withLineFeeds` writes
every break as a line feed, except for the two Unicode separators, which stay what they are.
-/

set_option autoImplicit false

namespace TypedClient.Yaml

/-- Whether the character ends a line. -/
def isBreak (c : Char) : Bool := c == '\n' || c == '\u2028' || c == '\u2029'

/-- Whether the character is a blank or a tab. -/
def isBlankOrTab (c : Char) : Bool := c == ' ' || c == '\t'

/-- Whether the character is a blank, a tab or a line break. -/
def isGap (c : Char) : Bool := isBlankOrTab c || isBreak c

/-- Whether the character may stand in a name of an anchor or in the handle of a tag. -/
def isNameChar (c : Char) : Bool := c.isAlphanum || c == '_' || c == '-'

/-- Whether a text may hold the character. -/
def isAllowed (c : Char) : Bool :=
  let n := c.toNat
  n == 0x09 || n == 0x0A || n == 0x0D || (0x20 ≤ n && n ≤ 0x7E) || n == 0x85 ||
    (0xA0 ≤ n && n ≤ 0xFFFD && n != 0xFEFF) || 0x10000 ≤ n

/-- The text with returns, pairs of return and line feed, and next-line controls as line feeds. -/
def withLineFeeds : List Char → List Char
  | '\r' :: '\n' :: rest => '\n' :: withLineFeeds rest
  | c :: rest => (if c = '\r' ∨ c = '\u0085' then '\n' else c) :: withLineFeeds rest
  | [] => []

/-- What is left of a text, and where it starts. -/
structure Cursor where
  /-- What is left. -/
  rest : List Char
  /-- The line it starts in. -/
  line : Nat
  /-- The column it starts at. -/
  column : Nat

namespace Cursor

/-- The start of a text. -/
def ofChars (text : List Char) : Cursor := ⟨text, 0, 0⟩

/-- The cursor after one character. -/
def next (c : Cursor) : Cursor :=
  match c.rest with
  | [] => c
  | first :: rest => if isBreak first then ⟨rest, c.line + 1, 0⟩ else ⟨rest, c.line, c.column + 1⟩

/-- The cursor after a number of characters. -/
def skip (c : Cursor) : (count : Nat) → Cursor
  | 0 => c
  | count + 1 => c.next.skip count

/-- The character at an offset. -/
def peek? (c : Cursor) (offset : Nat) : Option Char := c.rest[offset]?

/-- Whether the text goes on with the given character at an offset. -/
def isAt (c : Cursor) (offset : Nat) (char : Char) : Bool := c.peek? offset == some char

/-- Whether a gap or the end of the text stands at an offset. -/
def isGapAt (c : Cursor) (offset : Nat) : Bool :=
  match c.peek? offset with
  | some char => isGap char
  | none => true

/-- The longest run of characters that satisfy a condition, and the cursor after it. -/
def span (c : Cursor) (p : Char → Bool) : List Char × Cursor :=
  let taken := c.rest.takeWhile p
  (taken, c.skip taken.length)

/-- The cursor after the longest run of characters that satisfy a condition. -/
def skipWhile (c : Cursor) (p : Char → Bool) : Cursor := (c.span p).2

/-- The cursor at the end of the line, before its break. -/
def toLineEnd (c : Cursor) : Cursor := c.skipWhile (!isBreak ·)

/-- Whether three of the given character stand alone at the start of a line, which marks the start
or the end of a document. -/
def isMarker (c : Cursor) (char : Char) : Bool :=
  c.column == 0 && c.isAt 0 char && c.isAt 1 char && c.isAt 2 char && c.isGapAt 3

/-- Whether a marker of either kind stands here. -/
def isAnyMarker (c : Cursor) : Bool := c.isMarker '-' || c.isMarker '.'

/-- The cursor at the next line, after blanks and a comment; nothing if the line holds more. -/
def afterLine? (c : Cursor) : Option Cursor :=
  let c := c.skipWhile isBlankOrTab
  let c := if c.isAt 0 '#' then c.toLineEnd else c
  match c.peek? 0 with
  | none => some c
  | some char => if isBreak char then some c.next else none

end Cursor

end TypedClient.Yaml
