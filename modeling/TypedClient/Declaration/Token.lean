import TypedClient.Json.NumberText
import TypedClient.Json.Printer
import TypedClient.Json.Quoted
import TypedClient.Naming.Identifier
import TypedClient.Text.Split

/-!
# Tokens of declarations

* `Token` is a word, a literal or a sign, and `Token.display` shows it in messages;
* `SyntaxError` is what can be wrong with a declaration text, and `SyntaxError.message` words it;
* `tokenize` cuts a text into tokens.  White space and comments separate tokens and are left out.
-/

set_option autoImplicit false

namespace TypedClient.Declaration

open TypedClient.Text

/-- The smallest part of a declaration. -/
inductive Token where
  /-- A word. -/
  | ident (name : String)
  /-- A string literal, by its value. -/
  | text (value : String)
  /-- A number literal. -/
  | number (value : Json.Number)
  /-- A sign of one character. -/
  | punct (sign : Char)
  /-- The arrow of a function type. -/
  | arrow
  deriving DecidableEq

/-- A token as messages show it. -/
def Token.display : Token → String
  | .ident name => "Ident(" ++ displayText name ++ ")"
  | .text value => "Str(" ++ displayText value ++ ")"
  | .number value => "Num(Number(" ++ value.text ++ "))"
  | .punct sign => "Punct(" ++ displayChar sign ++ ")"
  | .arrow => "Arrow"

/-- What stands at a place of a text, as messages show it: a token or the end. -/
def displayFound : Option Token → String
  | some token => "Some(" ++ token.display ++ ")"
  | none => "None"

/-- What can be wrong with a declaration text. -/
inductive SyntaxError where
  /-- A comment that starts at a position is not closed. -/
  | unterminatedComment (position : Nat)
  /-- A string literal is not closed. -/
  | unterminatedString
  /-- The body of a string literal is malformed. -/
  | malformedString (body : String)
  /-- A number literal is malformed. -/
  | malformedNumber (literal : String)
  /-- A character starts no token. -/
  | unexpectedCharacter (c : Char)
  /-- Something else stands in the place of a token. -/
  | expectedToken (token : Token) (found : Option Token)
  /-- Something else stands in the place of a member. -/
  | expectedMember (found : Option Token)
  /-- Something else stands in the place of a type. -/
  | expectedType (found : Option Token)

/-- The wording of a syntax error. -/
def SyntaxError.message : SyntaxError → String
  | .unterminatedComment position => "unterminated comment at " ++ toString position
  | .unterminatedString => "unterminated string literal"
  | .malformedString body => "bad string literal: " ++ displayText body
  | .malformedNumber literal => "bad number literal " ++ literal
  | .unexpectedCharacter c => "unexpected character " ++ displayChar c
  | .expectedToken token found => "expected " ++ token.display ++ ", got " ++ displayFound found
  | .expectedMember found => "expected member name, got " ++ displayFound found
  | .expectedType found => "expected a type, got " ++ displayFound found

/-! ## Literals and comments -/

/-- What follows a comment, given what follows its first two characters. -/
def afterComment? : List Char → Option (List Char)
  | a :: b :: rest => if a = '*' ∧ b = '/' then some rest else afterComment? (b :: rest)
  | _ => none

/-- The body of a string literal and what follows the closing mark, given what follows the opening
mark.  A backslash keeps the character after it from closing the literal. -/
def stringBody? (mark : Char) : List Char → Option (List Char × List Char)
  | [] => none
  | '\\' :: c :: rest =>
    (stringBody? mark rest).map fun (body, after) => ('\\' :: c :: body, after)
  | c :: rest =>
    if c = mark then some ([], rest)
    else (stringBody? mark rest).map fun (body, after) => (c :: body, after)

/-- The body of a literal between single marks as one between double marks: single marks lose their
backslash and double marks get one. -/
def withDoubleMarks (body : List Char) : List Char :=
  (replacePair '\\' '\x27' ['\x27'] body).flatMap fun c => if c = '"' then ['\\', '"'] else [c]

/-- The value of a string literal of the given body. -/
def stringValue? (mark : Char) (body : List Char) : Option String :=
  let body := if mark = '"' then body else withDoubleMarks body
  match Json.unquoteChars (body ++ ['"']) with
  | some (value, []) => some (String.ofList value)
  | _ => none

/-- Whether the character goes on a number literal. -/
def isNumberPart (c : Char) : Bool := c.isAlphanum || c == '.' || c == '+' || c == '-'

/-- The value of a number literal. -/
def numberValue? (literal : List Char) : Option Json.Number :=
  match Json.readNumber literal with
  | some (value, []) => some value
  | _ => none

/-! ## Tokens -/

/-- The signs of one character. -/
def signs : List Char := "\x7b\x7d()[]<>,;:?|=&.*".toList

/-- Whether a number literal starts with `c`, given what follows. -/
def startsNumber (c : Char) (rest : List Char) : Bool :=
  c.isDigit || (c == '-' && (rest.head?.map Char.isDigit).getD false)

/-- Reads what starts with `c` in a text of the given length: a token, or nothing for white space
and comments, and what follows it. -/
def readToken (length : Nat) (c : Char) (rest : List Char) :
    Except SyntaxError (Option Token × List Char) :=
  if isBlank c then .ok (none, rest)
  else if c = '/' ∧ rest.head? = some '/' then .ok (none, rest.dropWhile (· != '\n'))
  else if c = '/' ∧ rest.head? = some '*' then
    match afterComment? (rest.drop 1) with
    | some after => .ok (none, after)
    | none => .error (.unterminatedComment (length - (rest.length + 1)))
  else if c = '"' ∨ c = '\x27' then
    match stringBody? c rest with
    | none => .error .unterminatedString
    | some (body, after) =>
      match stringValue? c body with
      | some value => .ok (some (.text value), after)
      | none => .error (.malformedString (String.ofList body))
  else if startsNumber c rest then
    let literal := c :: rest.takeWhile isNumberPart
    match numberValue? literal with
    | some value => .ok (some (.number value), rest.dropWhile isNumberPart)
    | none => .error (.malformedNumber (String.ofList literal))
  else if Naming.isIdentifierStart c then
    .ok (some (.ident (String.ofList (c :: rest.takeWhile Naming.isIdentifierPart))),
      rest.dropWhile Naming.isIdentifierPart)
  else if c = '=' ∧ rest.head? = some '>' then .ok (some .arrow, rest.drop 1)
  else if signs.contains c then .ok (some (.punct c), rest)
  else .error (.unexpectedCharacter c)

/-- The tokens of what is left of a text of the given length, at most `steps` of them. -/
def tokensFrom (length : Nat) : (steps : Nat) → List Char → Except SyntaxError (List Token)
  | 0, _ | _, [] => .ok []
  | steps + 1, c :: rest => do
    let (token, after) ← readToken length c rest
    let later ← tokensFrom length steps after
    return token.toList ++ later

/-- The tokens of a text.  Each takes at least one character. -/
def tokenize (text : String) : Except SyntaxError (List Token) :=
  tokensFrom text.toList.length text.toList.length text.toList

end TypedClient.Declaration
