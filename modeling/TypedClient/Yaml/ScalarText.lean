import TypedClient.Json.Quoted
import TypedClient.Text.Split
import TypedClient.Yaml.Cursor

/-!
# Scalars on the page

A scalar can be written in four ways, and each has its own rules for where it ends and how its line
breaks are read.

* `plainScalar` reads a scalar without marks;
* `quotedScalar` reads one between single or double marks;
* `blockScalar` reads one that follows `|` or `>` on lines of its own;
* `foldGap` is the rule that the first two share: a single line break between words is a blank, and
  of several line breaks the first is dropped.

A reader that walks the text takes a bound on its steps.  Every step uses up a character, so the
length of the text and one more is enough.
-/

set_option autoImplicit false

namespace TypedClient.Yaml

/-- The text that a run of blanks and line breaks between words stands for.  If `broken`, a line
break before the run has been taken back by a backslash. -/
def foldGap (broken : Bool) (run : List Char) : List Char :=
  match run.filter isBreak, broken with
  | [], false => run
  | breaks, true => breaks
  | first :: breaks, false =>
    if first != '\n' then first :: breaks else if breaks.isEmpty then [' '] else breaks

/-! ## Plain scalars -/

/-- The characters that end a plain scalar inside brackets. -/
def isFlowIndicator (c : Char) : Bool :=
  c == ',' || c == '[' || c == ']' || c == '\x7b' || c == '\x7d'

/-- Reads the characters of a plain scalar up to a gap or an indicator.  Inside brackets, a colon
must not stand directly before an indicator or a question mark. -/
def plainWord (flow : Bool) : List Char → Option (List Char)
  | [] => some []
  | c :: rest =>
    let following := rest.head?
    if isGap c then some []
    else if flow && c == ':' && following.any fun d => isFlowIndicator d || d == '?' then none
    else if c == ':' && following.all isGap then some []
    else if flow && isFlowIndicator c then some []
    else (plainWord flow rest).map (c :: ·)

/-- Whether a tab stands left of the given column on a line that starts inside the run. -/
def hasEarlyTab (floor : Nat) : (column : Option Nat) → List Char → Bool
  | _, [] => false
  | column, c :: rest =>
    if isBreak c then hasEarlyTab floor (some 0) rest
    else
      match column with
      | none => hasEarlyTab floor none rest
      | some n => (c == '\t' && n < floor) || hasEarlyTab floor (some (n + 1)) rest

/-- A plain scalar that has been read. -/
structure PlainScalar where
  /-- Its text. -/
  text : List Char
  /-- What follows it. -/
  cursor : Cursor
  /-- Whether a line break follows it directly. -/
  broken : Bool

/-- Reads on in a plain scalar whose text so far is given, after the gap `gap`.  Its lines have to
start at the column `floor` or right of it, unless brackets are open. -/
def plainFrom (flow : Bool) (floor : Nat) (text gap : List Char) :
    (steps : Nat) → Cursor → Option PlainScalar
  | 0, _ => none
  | steps + 1, c =>
    let stop : Option PlainScalar := some ⟨text, c, gap.any isBreak⟩
    if c.isAnyMarker || c.isAt 0 '#' then stop
    else
      match plainWord flow c.rest with
      | none => none
      | some word =>
        let (text, gap) :=
          if word.isEmpty then (text, gap) else (text ++ foldGap false gap ++ word, [])
        let c := c.skip word.length
        if !(c.peek? 0).any isGap then some ⟨text, c, gap.any isBreak⟩
        else
          let (run, after) := c.span isGap
          if hasEarlyTab floor none run then none
          else
            let gap := gap ++ run
            if !flow && after.column < floor && run.any isBreak then
              some ⟨text, after, true⟩
            else plainFrom flow floor text gap steps after

/-- Reads a plain scalar. -/
def plainScalar (flow : Bool) (floor : Nat) (c : Cursor) : Option PlainScalar :=
  plainFrom flow floor [] [] (c.rest.length + 1) c

/-! ## Quoted scalars -/

/-- The characters that one letter after a backslash stands for. -/
def letterEscapes : List (Char × Char) :=
  [('0', '\x00'), ('a', '\x07'), ('b', '\x08'), ('t', '\t'), ('\t', '\t'), ('n', '\n'),
    ('v', '\x0b'), ('f', '\x0c'), ('r', '\r'), ('e', '\x1b'), (' ', ' '), ('"', '"'), ('/', '/'),
    ('\\', '\\'), ('N', '\u0085'), ('_', '\u00a0'), ('L', '\u2028'), ('P', '\u2029')]

/-- How many hexadecimal digits follow a letter after a backslash. -/
def digitCounts : List (Char × Nat) := [('x', 2), ('u', 4), ('U', 8)]

/-- The character that the given digits number, if they are hexadecimal digits of a character. -/
def numberedChar? (digits : List Char) : Option Char := do
  let n ← digits.foldlM (fun n c => do return 16 * n + (← Json.hexValue? c)) 0
  if h : n.isValidChar then some (Char.ofNatAux n h) else none

/-- Reads an escape after its backslash: the character, and how many characters it takes up. -/
def readEscape? : List Char → Option (Char × Nat)
  | [] => none
  | c :: rest =>
    match letterEscapes.lookup c, digitCounts.lookup c with
    | some char, _ => some (char, 1)
    | none, some count =>
      if rest.length < count then none
      else (numberedChar? (rest.take count)).map fun char => (char, count + 1)
    | none, none => none

/-- Reads on in a quoted scalar whose text so far is given. -/
def quotedFrom (double : Bool) (text : List Char) :
    (steps : Nat) → Cursor → Option (List Char × Cursor)
  | 0, _ => none
  | steps + 1, c =>
    let mark := if double then '"' else '\x27'
    match c.rest with
    | [] => none
    | first :: rest =>
      if c.isAnyMarker then none
      else if isGap first then
        let (run, after) := c.span isGap
        quotedFrom double (text ++ foldGap false run) steps after
      else if !double && first == mark && rest.head? == some mark then
        quotedFrom double (text ++ [mark]) steps (c.skip 2)
      else if first == mark then some (text, c.next)
      else if double && first == '\\' then
        if rest.head?.any isBreak then
          let (run, after) := (c.skip 2).span isGap
          quotedFrom double (text ++ foldGap true run) steps after
        else
          match readEscape? rest with
          | none => none
          | some (char, count) => quotedFrom double (text ++ [char]) steps (c.skip (count + 1))
      else
        let (word, after) := c.span fun d => !isGap d && d != mark && d != '\\'
        if word.isEmpty then quotedFrom double (text ++ [first]) steps c.next
        else quotedFrom double (text ++ word) steps after

/-- Reads a quoted scalar after its opening mark. -/
def quotedScalar (double : Bool) (c : Cursor) : Option (List Char × Cursor) :=
  quotedFrom double [] (c.rest.length + 1) c

/-! ## Block scalars -/

/-- What happens to the line breaks at the end of a block scalar. -/
inductive Chomping where
  /-- All are dropped. -/
  | strip
  /-- The first is kept. -/
  | clip
  /-- All are kept. -/
  | keep
  deriving DecidableEq

/-- The head of a block scalar: the indentation it gives, if any, and what happens to its end. -/
def blockHead (c : Cursor) : Option (Option Nat × Chomping × Cursor) := do
  let chomping? (c : Cursor) : Option Chomping :=
    if c.isAt 0 '+' then some .keep else if c.isAt 0 '-' then some .strip else none
  let digit? (c : Cursor) : Option Nat :=
    match c.peek? 0 with
    | some d => if d.isDigit then some (Text.digitValue d) else none
    | none => none
  let (digit, chomping, c) ←
    match chomping? c with
    | some chomping =>
      match digit? c.next with
      | some d => some (some d, chomping, c.skip 2)
      | none => some (none, chomping, c.next)
    | none =>
      match digit? c with
      | some d =>
        match chomping? c.next with
        | some chomping => some (some d, chomping, c.skip 2)
        | none => some (some d, .clip, c.next)
      | none => some (none, .clip, c)
  if digit == some 0 then none
  return (digit, chomping, ← c.afterLine?)

/-- Passes empty lines, where blanks left of the indentation count for nothing: the line breaks, the
rightmost column that was reached, and the cursor. -/
def blockBreaks (indent : Option Nat) (breaks : List Char) (reached : Nat) :
    (steps : Nat) → Cursor → Option (List Char × Nat × Cursor)
  | 0, _ => none
  | steps + 1, c =>
    let inside (column : Nat) : Bool :=
      match indent with
      | some n => column < n
      | none => true
    let blanks := (c.rest.takeWhile (· == ' ')).length
    let c := c.skip (match indent with
      | some n => min blanks (n - c.column)
      | none => blanks)
    let reached := max reached c.column
    if inside c.column && c.isAt 0 '\t' then none
    else
      match c.peek? 0 with
      | some char =>
        if isBreak char then blockBreaks indent (breaks ++ [char]) reached steps c.next
        else some (breaks, reached, c)
      | none => some (breaks, reached, c)

/-- Reads the lines of a block scalar whose text so far is given, with the break after its last line
and the empty lines after that.  Lines that start with a blank are not folded into others. -/
def blockLines (literal : Bool) (indent : Nat) (text leading trailing : List Char)
    (afterBlank : Bool) :
    (steps : Nat) → Cursor → Option (List Char × List Char × List Char × Cursor)
  | 0, _ => none
  | steps + 1, c =>
    if c.column != indent || c.rest.isEmpty then some (text, leading, trailing, c)
    else
      let startsBlank := (c.peek? 0).any isBlankOrTab
      let joined :=
        if !literal && leading.head? == some '\n' && !afterBlank && !startsBlank then
          if trailing.isEmpty then [' '] else trailing
        else leading ++ trailing
      let (line, c) := c.span (!isBreak ·)
      let leading := (c.peek? 0).toList
      match blockBreaks (some indent) [] 0 (c.rest.length + 1) c.next with
      | none => none
      | some (trailing, _, c) =>
        blockLines literal indent (text ++ joined ++ line) leading trailing startsBlank steps c

/-- Reads a block scalar after its indicator, where `floor` is the leftmost column of the contents
of the surrounding block. -/
def blockScalar (literal : Bool) (floor : Nat) (c : Cursor) : Option (List Char × Cursor) := do
  let (digit, chomping, c) ← blockHead c
  let given := digit.map fun d => floor - 1 + d
  let (breaks, reached, c) ← blockBreaks given [] 0 (c.rest.length + 1) c
  let indent := given.getD (max (max reached floor) 1)
  let (text, leading, trailing, c) ←
    blockLines literal indent [] [] breaks false (c.rest.length + 1) c
  let ending := match chomping with
    | .strip => []
    | .clip => leading
    | .keep => leading ++ trailing
  return (text ++ ending, c)

end TypedClient.Yaml
