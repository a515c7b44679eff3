import TypedClient.Text.CaseMap
import TypedClient.Text.Split
import TypedClient.Text.Utf8
import TypedClient.Url.Percent
import TypedClient.Url.Punycode

/-!
# Domain names

The host of a web address is a name of labels with dots between them.  `domainName?` brings it into
the form that is looked up: in ASCII, and in lower case.

Labels beyond ASCII go through three steps: their characters are mapped, those that no name may
have are refused, and the label is written in Punycode behind `xn--`.  The mapping takes letters to
lower case, the wide forms of ASCII characters to those, the dots of other scripts to the full stop,
and drops the characters that show nothing.  Compatibility forms beyond these stay as they are.
-/

set_option autoImplicit false

namespace TypedClient.Url

open TypedClient.Text

/-- Whether a character shows nothing and is left out of names. -/
def isDropped (c : Char) : Bool :=
  let n := c.toNat
  n == 0xAD || n == 0x34F || (0x180B ≤ n && n ≤ 0x180F) || n == 0x200B || n == 0x2060 ||
    n == 0x2064 || (0xFE00 ≤ n && n ≤ 0xFE0F) || n == 0xFEFF

/-- The characters that a character of a name stands for. -/
def mapped (c : Char) : List Char :=
  let n := c.toNat
  if isDropped c then []
  else if n = 0x3002 ∨ n = 0xFF61 then ['.']
  else if 0xFF01 ≤ n ∧ n ≤ 0xFF5E then lower (Char.ofNat (n - 0xFF01 + 0x21))
  else if n = 0x1E9E then ['ß']
  else lower c

/-- Whether no name may have the character. -/
def isRefused (c : Char) : Bool :=
  if c.toNat < 0x80 then isControl c || " #%/:<>?@[\\]^|".toList.contains c
  else isBlank c || isUnprintable c || c.toNat == 0xFFFD

/-- Whether a label says that it is in Punycode. -/
def isEncodedLabel (label : List Char) : Bool := "xn--".toList.isPrefixOf label

/-- Whether a label is in ASCII. -/
def isAscii (label : List Char) : Bool := label.all fun c => c.toNat < 0x80

/-- Whether what an encoded label says is a label: it has characters beyond ASCII, is mapped to
itself, and has no character that names may not have. -/
def isProperEncoding (label : List Char) : Bool :=
  match Punycode.decode (label.drop 4) with
  | some plain =>
    !isAscii plain && plain.flatMap mapped == plain && !plain.any isRefused &&
      Punycode.encode plain == label.drop 4
  | none => false

/-- A label in ASCII. -/
def asciiLabel? (label : List Char) : Option (List Char) :=
  if isAscii label then
    if isEncodedLabel label && !isProperEncoding label then none else some label
  else if isEncodedLabel label || (label.head?.map isExtender).getD false then none
  else some ("xn--".toList ++ Punycode.encode label)

/-- The name that the bytes of a host stand for. -/
def domainName? (bytes : Bytes) : Option (List Char) := do
  let text ← decodeUtf8? bytes
  let name := text.toList.flatMap mapped
  if name.any isRefused then none
  else
    let labels ← (splitOn '.' name).mapM asciiLabel?
    return ".".toList.intercalate labels

end TypedClient.Url
