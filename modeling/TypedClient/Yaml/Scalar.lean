import TypedClient.Json.Basic
import TypedClient.Json.Quoted
import TypedClient.Text.Split

/-!
# Values of plain scalars

A scalar without marks may be null, a truth value or a number, by how it is written.

* `isNull` and `truth?` recognize the spellings of null and of truth values;
* `integer?` reads an integer, in decimal, hexadecimal, octal or binary digits;
* `double?` reads any other number;
* `plainValue?` is the value of a plain scalar.  A number of more than 64 bits that fits into 128 is
  refused, and larger ones are doubles.
-/

set_option autoImplicit false

namespace TypedClient.Yaml

open TypedClient.Number (Double)
open TypedClient.Text

/-- Whether the text is a spelling of null. -/
def isNull (text : String) : Bool := ["null", "Null", "NULL", "~"].contains text

/-- The truth value that the text spells. -/
def truth? (text : String) : Option Bool :=
  if ["true", "True", "TRUE"].contains text then some true
  else if ["false", "False", "FALSE"].contains text then some false
  else none

/-- Reads one or more digits of a base up to sixteen. -/
def baseDigits? (base : Nat) (cs : List Char) : Option Nat :=
  if cs.isEmpty then none
  else
    cs.foldlM (fun n c => do
      let digit ← Json.hexValue? c
      if digit < base then some (base * n + digit) else none) 0

/-- Reads a number after the letters that announce its base. -/
def basedNumber? (cs : List Char) : Option Nat :=
  [(['0', 'x'], 16), (['0', 'o'], 8), (['0', 'b'], 2)].findSome? fun (start, base) =>
    (afterStart? start cs).bind (baseDigits? base)

/-- What follows the sign of a text, if it starts with one of the given signs. -/
def afterSign (signs : List Char) : List Char → List Char
  | c :: rest => if signs.contains c then rest else c :: rest
  | [] => []

/-- Whether the text is digits behind a zero that is not alone, which makes it no number. -/
def hasLeadingZero (cs : List Char) : Bool :=
  match afterSign ['-', '+'] cs with
  | '0' :: c :: rest => (c :: rest).all Char.isDigit
  | _ => false

/-- The integer that the text writes. -/
def integer? (cs : List Char) : Option Int :=
  match cs with
  | '-' :: digits =>
    let magnitude := basedNumber? digits <|> if hasLeadingZero cs then none else readDigits? digits
    magnitude.map fun n => -(n : Int)
  | cs =>
    let digits := afterSign ['+'] cs
    let magnitude := basedNumber? digits <|> if hasLeadingZero cs then none else readDigits? digits
    magnitude.map fun n => (n : Int)

/-- The number that digits, fraction digits and an exponent write.  Exponents that lead far beyond
the doubles are not worked out. -/
def decimalDouble? (negative : Bool) (whole fraction : List Char) (exponent : Int) :
    Option Double :=
  let digits := numberOfDigits (whole ++ fraction)
  let power := exponent - fraction.length
  let size : Int := (Nat.toDigits 10 digits).length + power
  if digits = 0 ∨ size < -400 then some (Double.zero negative)
  else if 400 < size then none
  else Double.ofDecimal? negative digits power

/-- The exponent that the text writes: none at all, or a letter and a number. -/
def exponent? : List Char → Option Int
  | [] => some 0
  | c :: rest =>
    if c != 'e' && c != 'E' then none
    else
      match rest with
      | '-' :: digits => (readDigits? digits).map fun n => -(n : Int)
      | digits => (readDigits? (afterSign ['+'] digits)).map fun n => (n : Int)

/-- The finite number that the text writes in decimal notation; digits may be missing on one side of
the point. -/
def finite? (cs : List Char) : Option Double := do
  let negative := cs.head? == some '-'
  let (whole, rest) := leadingDigits (afterSign ['-'] cs)
  let (fraction, rest) :=
    match rest with
    | '.' :: rest => leadingDigits rest
    | rest => ([], rest)
  if whole.isEmpty && fraction.isEmpty then none
  decimalDouble? negative whole fraction (← exponent? rest)

/-- A number that is no integer. -/
inductive Real where
  /-- A finite one. -/
  | finite (value : Double)
  /-- An infinity, or no number at all. -/
  | beyond

/-- The number that the text writes, where it is no integer. -/
def double? (cs : List Char) : Option Real :=
  let unsigned := afterSign ['+'] cs
  let infinities := [".inf", ".Inf", ".INF"].map String.toList
  let negative := ["-.inf", "-.Inf", "-.INF", ".nan", ".NaN", ".NAN"].map String.toList
  if cs.head? == some '+' && (unsigned.head? == some '+' || unsigned.head? == some '-') then none
  else if infinities.contains unsigned || negative.contains cs then some .beyond
  else (finite? unsigned).map .finite

/-- The value of an integer: one of more than 64 bits that fits into 128 has none, and larger ones
are no integers. -/
def integerValue? (n : Int) : Option (Option Json) :=
  if -(Number.twoTo 63 : Int) ≤ n ∧ n < Number.twoTo 64 then some (some (.ofInt n))
  else if -(Number.twoTo 127 : Int) ≤ n ∧ n < Number.twoTo 128 then some none
  else none

/-- The value of a number that is no integer; JSON has none for what is not finite. -/
def Real.value : Real → Json
  | .finite d => .number (.double d)
  | .beyond => .null

/-- The value of a plain scalar. -/
def plainValue? (text : String) : Option Json :=
  let cs := text.toList
  if text.isEmpty || isNull text then some .null
  else
    match truth? text with
    | some b => some (.bool b)
    | none =>
      match (integer? cs).bind integerValue? with
      | some value => value
      | none =>
        match if hasLeadingZero cs then none else double? cs with
        | some real => some real.value
        | none => some (.string text)

/-- The tags of scalars that say what their text has to be. -/
inductive ScalarTag where
  /-- A truth value. -/
  | bool
  /-- An integer. -/
  | int
  /-- Any number. -/
  | float
  /-- Null. -/
  | null

/-- The tag of a scalar that the text names. -/
def ScalarTag.ofText? (tag : String) : Option ScalarTag :=
  [("tag:yaml.org,2002:bool", bool), ("tag:yaml.org,2002:int", int),
    ("tag:yaml.org,2002:float", float), ("tag:yaml.org,2002:null", null)].lookup tag

/-- The value of a scalar with a tag that says what it has to be. -/
def ScalarTag.value? (text : String) : ScalarTag → Option Json
  | .bool => (truth? text).map .bool
  | .int => ((integer? text.toList).bind integerValue?).join
  | .float => (double? text.toList).map Real.value
  | .null => if isNull text then some .null else none

/-- Whether a tag is local to the document. -/
def isLocalTag (tag : String) : Bool := tag.toList.head? == some '!'

/-- The value of a scalar.  Scalars with marks and those with unknown tags are texts; a local tag
leaves no value. -/
def scalarValue? (tag : Option String) (plain : Bool) (text : String) : Option Json :=
  match tag with
  | none => if plain then plainValue? text else some (.string text)
  | some tag =>
    if isLocalTag tag then none
    else
      match ScalarTag.ofText? tag with
      | some known => known.value? text
      | none => some (.string text)

end TypedClient.Yaml
