import TypedClient.Json.Quoted
import TypedClient.Naming.Words

/-!
# Identifiers of the emitted code

Names in schemas are arbitrary texts; names in emitted JavaScript and TypeScript are not.

* `isIdentifier` says which texts may stand for a variable or function;
* `propertyKey` writes a text as a property name, quoted where it has to be;
* `typeName` and `valueName` turn any text into the name of a type and of a value;
* `freeName` tells a name that is taken apart by a number: after `Movie` come `Movie2`, `Movie3` and
  so on, and it is the first of these that is free.
-/

set_option autoImplicit false

namespace TypedClient.Naming

/-- Words that name neither variables nor functions. -/
def reservedWords : List String :=
  ["await", "break", "case", "catch", "class", "const", "continue", "debugger", "default",
    "delete", "do", "else", "enum", "export", "extends", "false", "finally", "for", "function",
    "if", "implements", "import", "in", "instanceof", "interface", "let", "new", "null",
    "package", "private", "protected", "public", "return", "static", "super", "switch", "this",
    "throw", "true", "try", "typeof", "var", "void", "while", "with", "yield"]

/-- Whether the character may start an identifier. -/
def isIdentifierStart (c : Char) : Bool := c.isAlpha || c == '_' || c == '$'

/-- Whether the character may go on an identifier. -/
def isIdentifierPart (c : Char) : Bool := c.isAlphanum || c == '_' || c == '$'

/-- Whether the characters have the shape of an identifier. -/
def isIdentifierShaped : List Char → Bool
  | [] => false
  | first :: rest => isIdentifierStart first && rest.all isIdentifierPart

/-- Whether the text may name a variable or function: an identifier of ASCII characters that is no
reserved word. -/
def isIdentifier (name : String) : Bool :=
  isIdentifierShaped name.toList && !reservedWords.contains name

/-- The text as the name of a property; reserved words need no quotes there. -/
def propertyKey (name : String) : String :=
  if isIdentifierShaped name.toList then name else Json.quote name

/-- The ASCII letters, digits and underscores of a text. -/
def plainPart (name : String) : String :=
  String.ofList (name.toList.filter fun c => c.isAlphanum || c == '_')

/-- A name for the type that a text describes.  A text without words is `Anonymous`; one whose
words make no identifier keeps their plain part after a `T`. -/
def typeName (raw : String) : String :=
  let name := pascalCase raw
  if name.isEmpty then "Anonymous"
  else if isIdentifier name then name
  else "T" ++ plainPart name

/-- A name for the variable or function that a text describes.  An identifier is kept as it is; a
text whose words make none keeps their plain part after an underscore. -/
def valueName (raw : String) : String :=
  if isIdentifier raw then raw
  else
    let name := camelCase raw
    if isIdentifier name then name else "_" ++ plainPart name

/-! ## Free names -/

/-- The first of `candidate` with `n`, `n + 1` and so on behind it that is not taken, where at most
the given number of names are looked at before the last. -/
def numberedName (taken : String → Bool) (candidate : String) (n : Nat) : (steps : Nat) → String
  | 0 => candidate ++ toString n
  | steps + 1 =>
    if taken (candidate ++ toString n) then numberedName taken candidate (n + 1) steps
    else candidate ++ toString n

/-- The candidate, or else the first free numbered name.  Of one more names than are taken, one is
free. -/
def freeName (taken : List String) (candidate : String) : String :=
  if taken.contains candidate then numberedName taken.contains candidate 2 taken.length
  else candidate

/-- The candidate under a name that is free, and the names that are taken then. -/
def claim (taken : List String) (candidate : String) : String × List String :=
  let name := freeName taken candidate
  (name, name :: taken)

end TypedClient.Naming
