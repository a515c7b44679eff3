import TypedClient.Text.Split
import TypedClient.Text.Utf8
import TypedClient.Yaml.ScalarText

/-!
# Tokens

A text is cut into tokens.  The layout of the text is turned into tokens as well: where a block
collection starts and ends there is a token, just as there is one for a bracket.

A key of a mapping need not be announced.  Where one may start, its place in the list of tokens is
remembered, and the colon after it puts the tokens for the key in that place.

* `Token` is a token;
* `Scan` is the state of cutting, and `Scan.cut` cuts one token;
* `tokens?` cuts a text, and gives nothing for a malformed one.
-/

set_option autoImplicit false

namespace TypedClient.Yaml

/-- A token. -/
inductive Token where
  /-- The start of a document. -/
  | documentStart
  /-- The end of a document. -/
  | documentEnd
  /-- A directive that gives the version. -/
  | version (major minor : Nat)
  /-- A directive that gives the meaning of a handle of tags. -/
  | tagHandle (handle meaning : List Char)
  /-- The start of a block list. -/
  | blockSequence
  /-- The start of a block mapping. -/
  | blockMapping
  /-- The end of a block list or mapping. -/
  | blockEnd
  /-- An opening bracket. -/
  | flowSequence
  /-- A closing bracket. -/
  | flowSequenceEnd
  /-- An opening brace. -/
  | flowMapping
  /-- A closing brace. -/
  | flowMappingEnd
  /-- A dash before an item. -/
  | blockEntry
  /-- A comma. -/
  | flowEntry
  /-- The place before a key. -/
  | key
  /-- The colon before a value. -/
  | value
  /-- A reference to an anchor. -/
  | aliasOf (name : List Char)
  /-- The name of the node that follows. -/
  | anchor (name : List Char)
  /-- The tag of the node that follows, as a handle and a rest. -/
  | tag (handle suffix : List Char)
  /-- A scalar, and whether it is written without marks. -/
  | scalar (plain : Bool) (text : List Char)
  deriving DecidableEq

/-- A place where a key may have started. -/
structure PossibleKey where
  /-- Whether nothing but a key may stand there. -/
  required : Bool
  /-- The number of tokens before it. -/
  position : Nat
  /-- The line it starts in. -/
  line : Nat
  /-- The column it starts at. -/
  column : Nat

/-- The state of cutting a text. -/
structure Scan where
  /-- What is left of the text. -/
  cursor : Cursor
  /-- The tokens so far, last first. -/
  tokens : List Token
  /-- The columns of the open block collections, innermost first. -/
  indents : List Nat
  /-- Whether a key may start at the next token. -/
  keyAllowed : Bool
  /-- The possible key of the current level. -/
  key : Option PossibleKey
  /-- The possible keys of the levels outside of the open brackets, innermost first. -/
  outerKeys : List (Option PossibleKey)

namespace Scan

/-- The start of a text. -/
def ofChars (text : List Char) : Scan := ⟨.ofChars text, [], [], true, none, []⟩

/-- Whether brackets are open. -/
def inFlow (s : Scan) : Bool := !s.outerKeys.isEmpty

/-- The leftmost column where contents of the innermost block collection may stand. -/
def floor (s : Scan) : Nat :=
  match s.indents with
  | [] => 0
  | indent :: _ => indent + 1

/-- Adds a token. -/
def push (s : Scan) (token : Token) : Scan := { s with tokens := token :: s.tokens }

/-- Puts a token behind the first `position` tokens. -/
def pushAt (s : Scan) (position : Nat) (token : Token) : Scan :=
  let after := s.tokens.length - position
  { s with tokens := s.tokens.take after ++ token :: s.tokens.drop after }

/-! ## Possible keys -/

/-- The key if it may still be one: keys end on the line where they start, and within 1024
characters.  Nothing if it has to be one and no longer can. -/
def stillPossible (c : Cursor) : Option PossibleKey → Option (Option PossibleKey)
  | none => some none
  | some key =>
    if key.line < c.line || key.column + 1024 < c.column then
      if key.required then none else some none
    else some (some key)

/-- Forgets the keys that no longer are possible. -/
def dropStaleKeys (s : Scan) : Option Scan := do
  let key ← stillPossible s.cursor s.key
  let outerKeys ← s.outerKeys.mapM (stillPossible s.cursor)
  return { s with key, outerKeys }

/-- Forgets the possible key of the current level. -/
def dropKey (s : Scan) : Option Scan :=
  match s.key with
  | some key => if key.required then none else some { s with key := none }
  | none => some s

/-- Remembers that a key may start here, if it may. -/
def saveKey (s : Scan) : Option Scan :=
  if !s.keyAllowed then some s
  else
    let required := !s.inFlow && s.indents.head? == some s.cursor.column
    s.dropKey.map fun s =>
      { s with key := some ⟨required, s.tokens.length, s.cursor.line, s.cursor.column⟩ }

/-! ## Layout -/

/-- Opens a block collection at a column, unless brackets are open or one is open there already; its
first token goes behind the first `position` tokens. -/
def openBlock (s : Scan) (column position : Nat) (token : Token) : Scan :=
  if s.inFlow || column < s.floor then s
  else { s.pushAt position token with indents := column :: s.indents }

/-- How many of the block collections lie right of a column. -/
def closing (column : Nat) (indents : List Nat) : Nat :=
  (indents.takeWhile (column < ·)).length

/-- Closes a number of block collections. -/
def closeBlocks (s : Scan) (count : Nat) : Scan :=
  { s with tokens := List.replicate count .blockEnd ++ s.tokens, indents := s.indents.drop count }

/-- Closes the block collections right of a column, unless brackets are open. -/
def closeBeyond (s : Scan) (column : Nat) : Scan :=
  if s.inFlow then s else s.closeBlocks (closing column s.indents)

/-- Closes all block collections, unless brackets are open. -/
def closeAll (s : Scan) : Scan := if s.inFlow then s else s.closeBlocks s.indents.length

/-- Passes blanks, comments and line breaks up to the next token.  A tab counts as a blank only
where no key may start. -/
def toNextToken (s : Scan) : (steps : Nat) → Scan
  | 0 => s
  | steps + 1 =>
    let tabs := s.inFlow || !s.keyAllowed
    let c := s.cursor.skipWhile fun d => d == ' ' || (tabs && d == '\t')
    let c := if c.isAt 0 '#' then c.toLineEnd else c
    match c.peek? 0 with
    | some d =>
      if isBreak d then
        toNextToken { s with cursor := c.next, keyAllowed := s.keyAllowed || !s.inFlow } steps
      else { s with cursor := c }
    | none => { s with cursor := c }

/-! ## Single tokens -/

/-- Adds a token of one character. -/
def pushOne (s : Scan) (token : Token) : Scan :=
  { s.push token with cursor := s.cursor.next }

/-- Opens a bracket or brace. -/
def openFlow (s : Scan) (token : Token) : Option Scan := do
  let s ← s.saveKey
  return { s.pushOne token with key := none, outerKeys := s.key :: s.outerKeys, keyAllowed := true }

/-- Closes a bracket or brace. -/
def closeFlow (s : Scan) (token : Token) : Option Scan := do
  let s ← s.dropKey
  let s := { s.pushOne token with keyAllowed := false }
  match s.outerKeys with
  | [] => return s
  | key :: outerKeys => return { s with key, outerKeys }

/-- Cuts a comma. -/
def cutFlowEntry (s : Scan) : Option Scan := do
  return { (← s.dropKey).pushOne .flowEntry with keyAllowed := true }

/-- Cuts the dash before an item. -/
def cutBlockEntry (s : Scan) : Option Scan := do
  if !s.inFlow && !s.keyAllowed then none
  let s := s.openBlock s.cursor.column s.tokens.length .blockSequence
  return { (← s.dropKey).pushOne .blockEntry with keyAllowed := true }

/-- Cuts the question mark before a key. -/
def cutKey (s : Scan) : Option Scan := do
  if !s.inFlow && !s.keyAllowed then none
  let s := s.openBlock s.cursor.column s.tokens.length .blockMapping
  return { (← s.dropKey).pushOne .key with keyAllowed := !s.inFlow }

/-- Cuts the colon before a value.  What may have been a key is one now. -/
def cutValue (s : Scan) : Option Scan :=
  match s.key with
  | some key =>
    let s := (s.pushAt key.position .key).openBlock key.column key.position .blockMapping
    some { s.pushOne .value with key := none, keyAllowed := false }
  | none =>
    if !s.inFlow && !s.keyAllowed then none
    else
      let s := s.openBlock s.cursor.column s.tokens.length .blockMapping
      some { s.pushOne .value with keyAllowed := !s.inFlow }

/-- Cuts the name of an anchor or of a reference. -/
def cutName (s : Scan) (token : List Char → Token) : Option Scan := do
  let s ← s.saveKey
  let (name, c) := s.cursor.next.span isNameChar
  let ends : Bool :=
    c.isGapAt 0 ||
      (c.peek? 0).any fun d => ['?', ':', ',', ']', '\x7d', '%', '@', '\x60'].contains d
  if name.isEmpty || !ends then none
  return { s.push (token name) with cursor := c, keyAllowed := false }

/-- Cuts a marker of the start or the end of a document. -/
def cutMarker (s : Scan) (token : Token) : Option Scan := do
  let s ← s.closeAll.dropKey
  return { s.push token with cursor := s.cursor.skip 3, keyAllowed := false }

/-! ## Tags -/

/-- Whether the character may stand in a tag; inside angle brackets a few more may. -/
def isTagChar (verbatim : Bool) (c : Char) : Bool :=
  isNameChar c ||
    [';', '/', '?', ':', '@', '&', '=', '+', '$', '.', '%', '!', '~', '*', '\x27', '(',
      ')'].contains c ||
    (verbatim && (c == ',' || c == '[' || c == ']'))

/-- The bytes that the escapes at the start of a text stand for, and how many there are. -/
def escapedBytes : List Char → Text.Bytes
  | '%' :: a :: b :: rest =>
    match Json.hexValue? a, Json.hexValue? b with
    | some high, some low => .ofNat (16 * high + low) :: escapedBytes rest
    | _, _ => []
  | _ => []

/-- Reads the characters of a tag, with bytes of characters written as percent signs and two
digits. -/
def tagText (verbatim : Bool) : (steps : Nat) → Cursor → Option (List Char × Cursor)
  | 0, _ => none
  | steps + 1, c =>
    match c.rest with
    | [] => some ([], c)
    | first :: _ =>
      if !isTagChar verbatim first then some ([], c)
      else if first == '%' then
        match escapedBytes c.rest with
        | [] => none
        | byte :: bytes =>
          match Text.leadingChar byte bytes with
          | (some char, tail) =>
            (tagText verbatim steps (c.skip (3 * (tail + 1)))).map fun (text, c) =>
              (char :: text, c)
          | (none, _) => none
      else (tagText verbatim steps c.next).map fun (text, c) => (first :: text, c)

/-- Reads the handle of a tag: an exclamation mark, and a name with a second one if there is one. -/
def tagHandle (c : Cursor) : Option (List Char × Cursor) :=
  if !c.isAt 0 '!' then none
  else
    let (name, after) := c.next.span isNameChar
    if after.isAt 0 '!' then some ('!' :: name ++ ['!'], after.next) else some ('!' :: name, after)

/-- Reads a tag: its handle and its rest. -/
def readTag (c : Cursor) : Option (List Char × List Char × Cursor) := do
  if c.isAt 1 '<' then
    let (suffix, c) ← tagText true (c.rest.length + 1) (c.skip 2)
    if suffix.isEmpty || !c.isAt 0 '>' then none
    return ([], suffix, c.next)
  let (handle, c) ← tagHandle c
  let (text, c) ← tagText false (c.rest.length + 1) c
  if 1 < handle.length && handle.getLast? == some '!' then
    if text.isEmpty then none
    return (handle, text, c)
  let suffix := handle.drop 1 ++ text
  if suffix.isEmpty then return ([], ['!'], c)
  return (['!'], suffix, c)

/-- Cuts a tag. -/
def cutTag (s : Scan) : Option Scan := do
  let s ← s.saveKey
  let (handle, suffix, c) ← readTag s.cursor
  if !(c.isGapAt 0 || (s.inFlow && c.isAt 0 ',')) then none
  return { s.push (.tag handle suffix) with cursor := c, keyAllowed := false }

/-! ## Directives -/

/-- Reads a number of one to nine digits. -/
def versionNumber (c : Cursor) : Option (Nat × Cursor) :=
  let (digits, c) := c.span Char.isDigit
  if digits.isEmpty || 9 < digits.length then none
  else some (Text.numberOfDigits digits, c)

/-- Reads a directive after its percent sign. -/
def readDirective (c : Cursor) : Option (Token × Cursor) := do
  let (name, c) := c.span isNameChar
  if !c.isGapAt 0 then none
  let c := c.skipWhile isBlankOrTab
  if name = "YAML".toList then
    let (major, c) ← versionNumber c
    if !c.isAt 0 '.' then none
    let (minor, c) ← versionNumber c.next
    return (.version major minor, c)
  else if name = "TAG".toList then
    let (handle, c) ← tagHandle c
    if handle != ['!'] && handle.getLast? != some '!' then none
    if !(c.peek? 0).any isBlankOrTab then none
    let (meaning, c) ← tagText true (c.rest.length + 1) (c.skipWhile isBlankOrTab)
    if meaning.isEmpty || !c.isGapAt 0 then none
    return (.tagHandle handle meaning, c)
  else none

/-- Cuts a directive. -/
def cutDirective (s : Scan) : Option Scan := do
  let s ← s.closeAll.dropKey
  let (token, c) ← readDirective s.cursor.next
  return { s.push token with cursor := ← c.afterLine?, keyAllowed := false }

/-! ## Scalars -/

/-- Cuts a scalar on lines of its own. -/
def cutBlockScalar (s : Scan) (literal : Bool) : Option Scan := do
  let s ← s.dropKey
  let (text, cursor) ← blockScalar literal s.floor s.cursor.next
  return { s.push (.scalar false text) with cursor, keyAllowed := true }

/-- Cuts a quoted scalar. -/
def cutQuoted (s : Scan) (double : Bool) : Option Scan := do
  let s ← s.saveKey
  let (text, cursor) ← quotedScalar double s.cursor.next
  return { s.push (.scalar false text) with cursor, keyAllowed := false }

/-- Cuts a plain scalar. -/
def cutPlain (s : Scan) : Option Scan := do
  let s ← s.saveKey
  let scalar ← plainScalar s.inFlow s.floor s.cursor
  return { s.push (.scalar true scalar.text) with
    cursor := scalar.cursor, keyAllowed := scalar.broken }

/-! ## The whole text -/

/-- The characters that start no plain scalar. -/
def isIndicator (c : Char) : Bool :=
  ['-', '?', ':', ',', '[', ']', '\x7b', '\x7d', '#', '&', '*', '!', '|', '>', '\x27', '"', '%',
    '@', '\x60'].contains c

/-- Cuts the token that starts with the given character. -/
def cut (s : Scan) (first : Char) : Option Scan :=
  let c := s.cursor
  let gapAfter := c.isGapAt 1
  if c.column == 0 && first == '%' then s.cutDirective
  else if c.isMarker '-' then s.cutMarker .documentStart
  else if c.isMarker '.' then s.cutMarker .documentEnd
  else if first == '[' then s.openFlow .flowSequence
  else if first == '\x7b' then s.openFlow .flowMapping
  else if first == ']' then s.closeFlow .flowSequenceEnd
  else if first == '\x7d' then s.closeFlow .flowMappingEnd
  else if first == ',' then s.cutFlowEntry
  else if first == '-' && gapAfter then s.cutBlockEntry
  else if first == '?' && (s.inFlow || gapAfter) then s.cutKey
  else if first == ':' && (s.inFlow || gapAfter) then s.cutValue
  else if first == '*' then s.cutName .aliasOf
  else if first == '&' then s.cutName .anchor
  else if first == '!' then s.cutTag
  else if first == '|' && !s.inFlow then s.cutBlockScalar true
  else if first == '>' && !s.inFlow then s.cutBlockScalar false
  else if first == '\x27' then s.cutQuoted false
  else if first == '"' then s.cutQuoted true
  else if !isGap first && !isIndicator first || first == '-' && !(c.peek? 1).any isBlankOrTab ||
      !s.inFlow && (first == '?' || first == ':') && !gapAfter then
    s.cutPlain
  else none

/-- Cuts the text that is left. -/
def run (s : Scan) : (steps : Nat) → Option (List Token)
  | 0 => none
  | steps + 1 => do
    let s ← (s.toNextToken (s.cursor.rest.length + 1)).dropStaleKeys
    let s := s.closeBeyond s.cursor.column
    match s.cursor.peek? 0 with
    | none => return (← s.closeAll.dropKey).tokens.reverse
    | some first => (← s.cut first).run steps

end Scan

/-- The tokens of a text.  A byte order mark at its start is passed over. -/
def tokens? (text : String) : Option (List Token) :=
  let chars := match text.toList with
    | '\ufeff' :: rest => rest
    | chars => chars
  if chars.all isAllowed then
    let chars := withLineFeeds chars
    (Scan.ofChars chars).run (chars.length + 1)
  else none

end TypedClient.Yaml
