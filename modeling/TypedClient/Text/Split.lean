import TypedClient.Text.CharClass

/-!
# Cutting and trimming texts

Texts are cut as lists of characters, so that what is said about the parts is said about lists.

* `splitOn` cuts at every occurrence of a character and keeps empty parts;
* `cutAt?` and `cutAtLast?` cut once, at the first and at the last occurrence;
* `trim` and `trimEnd` take white space off;
* `lines` cuts a text into its lines, without their ends;
* `afterStart?` and `beforeEnd?` take a known part off the start or the end;
* `replacePair` replaces every occurrence of two characters;
* `lowerAscii` and `sameIgnoringCase` treat letters of both cases alike, in ASCII only;
* `leadingDigits` cuts the digits off the start of a text, `readDigits?` reads a text of one or more
  digits, and `readUnsigned?` a number of limited size, which a plus sign may precede.
-/

set_option autoImplicit false

namespace TypedClient.Text

/-- The parts between the occurrences of `sep`, empty ones included; there is always one. -/
def splitOn (sep : Char) : List Char → List (List Char)
  | [] => [[]]
  | c :: rest =>
    if c = sep then [] :: splitOn sep rest
    else
      match splitOn sep rest with
      | [] => [[c]]
      | part :: parts => (c :: part) :: parts

/-- What stands before and after the first `sep`. -/
def cutAt? (sep : Char) : List Char → Option (List Char × List Char)
  | [] => none
  | c :: rest =>
    if c = sep then some ([], rest)
    else (cutAt? sep rest).map fun (before, after) => (c :: before, after)

/-- What stands before and after the last `sep`. -/
def cutAtLast? (sep : Char) : List Char → Option (List Char × List Char)
  | [] => none
  | c :: rest =>
    match cutAtLast? sep rest with
    | some (before, after) => some (c :: before, after)
    | none => if c = sep then some ([], rest) else none

/-- What follows `start`, if the text starts with it. -/
def afterStart? (start text : List Char) : Option (List Char) :=
  if start.isPrefixOf text then some (text.drop start.length) else none

/-- What precedes `ending`, if the text ends in it. -/
def beforeEnd? (ending text : List Char) : Option (List Char) :=
  if ending.isSuffixOf text then some (text.take (text.length - ending.length)) else none

/-- The text with every occurrence of `a` followed by `b` replaced, from the left. -/
def replacePair (a b : Char) (new : List Char) : List Char → List Char
  | c :: d :: rest =>
    if c = a ∧ d = b then new ++ replacePair a b new rest
    else c :: replacePair a b new (d :: rest)
  | cs => cs

/-- A text without the white space at its start. -/
def trimStart (cs : List Char) : List Char := cs.dropWhile isBlank

/-- A text without the white space at its end. -/
def trimEnd (cs : List Char) : List Char := (cs.reverse.dropWhile isBlank).reverse

/-- A text without the white space at both ends. -/
def trim (cs : List Char) : List Char := trimEnd (trimStart cs)

/-- A line without the carriage return that may end it. -/
def withoutReturn (line : List Char) : List Char :=
  if line.getLast? = some '\r' then line.dropLast else line

/-- The lines of a text.  A line ends in a line feed, which a carriage return may precede, or at
the end of the text; the end of the text after a line feed starts no further line. -/
def lines (cs : List Char) : List (List Char) :=
  let parts := splitOn '\n' cs
  let ended := parts.dropLast.map withoutReturn
  match parts.getLast? with
  | some [] | none => ended
  | some last => ended ++ [last]

/-- The text with the ASCII letters in lower case. -/
def lowerAscii (s : String) : String := String.ofList (s.toList.map Char.toLower)

/-- Whether two texts differ at most in the case of ASCII letters. -/
def sameIgnoringCase (a b : String) : Bool := lowerAscii a == lowerAscii b

/-- A text with white space at both ends taken off. -/
def trimText (s : String) : String := String.ofList (trim s.toList)

/-! ## Digits -/

/-- The value of a decimal digit. -/
def digitValue (c : Char) : Nat := c.toNat - '0'.toNat

/-- The number that digits write. -/
def numberOfDigits (digits : List Char) : Nat :=
  digits.foldl (fun n c => 10 * n + digitValue c) 0

/-- Reads a text that consists of digits and has at least one. -/
def readDigits? (cs : List Char) : Option Nat :=
  if cs.isEmpty || !cs.all Char.isDigit then none else some (numberOfDigits cs)

/-- Reads a number below `bound`; a plus sign may precede the digits. -/
def readUnsigned? (bound : Nat) (cs : List Char) : Option Nat :=
  let digits := match cs with
    | '+' :: rest => rest
    | cs => cs
  (readDigits? digits).filter (· < bound)

/-- The digits at the start of a text, and what follows them. -/
def leadingDigits (cs : List Char) : List Char × List Char :=
  (cs.takeWhile Char.isDigit, cs.dropWhile Char.isDigit)

end TypedClient.Text
