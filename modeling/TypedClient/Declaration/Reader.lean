import TypedClient.Declaration.Syntax
import TypedClient.Declaration.Token

/-!
# Reading declarations

Declarations are read back from the text of a module.  Interfaces and type aliases are kept;
everything else is skipped, one statement at a time, and so are interfaces with methods, which
describe clients and not data.

* `readType` reads a type expression and `readMembers` the members of an object type;
* `skipStatement` finds the end of a statement that is not read;
* `readStatements` reads the tokens of a module and `readDeclarations` its text.

The readers of types recurse on a number of steps.  Between two tokens they take at most three, so
`typeSteps` of the tokens suffices.
-/

set_option autoImplicit false

namespace TypedClient.Declaration

/-- The tokens that are still to be read. -/
abbrev Tokens := List Token

/-- Takes the sign off the tokens if it comes first. -/
def takeSign (sign : Char) : Tokens → Bool × Tokens
  | .punct c :: rest => if c = sign then (true, rest) else (false, .punct c :: rest)
  | tokens => (false, tokens)

/-- The tokens without the sign if it comes first. -/
def dropSign (sign : Char) (tokens : Tokens) : Tokens := (takeSign sign tokens).2

/-- Takes off the sign that has to come first. -/
def expectSign (sign : Char) (tokens : Tokens) : Except SyntaxError Tokens :=
  match takeSign sign tokens with
  | (true, rest) => .ok rest
  | (false, tokens) => .error (.expectedToken (.punct sign) tokens.head?)

/-! ## Skipping -/

/-- The tokens behind the closing sign of a bracket that has been opened the given number of
times. -/
def skipClosing (opening closing : Char) : (depth : Nat) → Tokens → Tokens
  | _, [] => []
  | depth, token :: rest =>
    if token = .punct opening then skipClosing opening closing (depth + 1) rest
    else if token = .punct closing then
      if depth ≤ 1 then rest else skipClosing opening closing (depth - 1) rest
    else skipClosing opening closing depth rest

/-- The tokens behind a member that is a method: behind the semicolon or comma that ends it, or at
the brace that ends the interface. -/
def skipMember : (depth : Nat) → Tokens → Tokens
  | _, [] => []
  | depth, .punct c :: rest =>
    if "\x7b([<".toList.contains c then skipMember (depth + 1) rest
    else if c = '\x7d' ∧ depth = 0 then .punct c :: rest
    else if "\x7d)]>".toList.contains c then skipMember (depth - 1) rest
    else if (c = ';' ∨ c = ',') ∧ depth = 0 then rest
    else skipMember depth rest
  | depth, _ :: rest => skipMember depth rest

/-- Whether the next token goes on the statement that a closing brace might have ended. -/
def continuesStatement : Tokens → Bool
  | .punct c :: _ => ";),|&[.>".toList.contains c
  | .arrow :: _ => true
  | _ => false

/-- The tokens behind a statement: behind its semicolon, or behind the last brace of a block. -/
def skipStatement : (depth : Nat) → Tokens → Tokens
  | _, [] => []
  | depth, .punct c :: rest =>
    if "\x7b([".toList.contains c then skipStatement (depth + 1) rest
    else if "\x7d)]".toList.contains c then
      if depth ≤ 1 ∧ c = '\x7d' ∧ !continuesStatement rest then rest
      else skipStatement (depth - 1) rest
    else if c = ';' ∧ depth = 0 then rest
    else skipStatement depth rest
  | depth, _ :: rest => skipStatement depth rest

/-! ## Types -/

/-- The members of an object type, unless one of them is a method. -/
abbrev Members := Option (List (Member TypeExpr))

/-- The type a word stands for on its own. -/
def wordType (word : String) : TypeExpr :=
  match word with
  | "string" => .primitive .string
  | "number" => .primitive .number
  | "boolean" => .primitive .boolean
  | "null" => .primitive .null
  | "true" => .literal (.bool true)
  | "false" => .literal (.bool false)
  | "unknown" | "any" | "undefined" | "void" | "never" | "object" => .unknown
  | name => .name name

/-- Pairs of square brackets behind a type make it a list. -/
def readArrays (type : TypeExpr) : Tokens → TypeExpr × Tokens
  | .punct '[' :: .punct ']' :: rest => readArrays (.array type) rest
  | tokens => (type, tokens)

mutual

/-- Reads a type.  A bar may precede the first member of a union. -/
def readType : (steps : Nat) → Tokens → Except SyntaxError (TypeExpr × Tokens)
  | 0, tokens => .error (.expectedType tokens.head?)
  | steps + 1, tokens => do
    let (first, tokens) ← readUnionMember steps (dropSign '|' tokens)
    let (rest, tokens) ← readAlternatives steps tokens
    return (if rest.isEmpty then first else .union (first :: rest), tokens)

/-- Reads the members of a union that follow the first, each behind a bar. -/
def readAlternatives : (steps : Nat) → Tokens → Except SyntaxError (List TypeExpr × Tokens)
  | 0, tokens => .error (.expectedType tokens.head?)
  | steps + 1, tokens =>
    match takeSign '|' tokens with
    | (false, tokens) => return ([], tokens)
    | (true, tokens) => do
      let (member, tokens) ← readUnionMember steps tokens
      let (rest, tokens) ← readAlternatives steps tokens
      return (member :: rest, tokens)

/-- Reads a type that is no union, unless in parentheses. -/
def readUnionMember : (steps : Nat) → Tokens → Except SyntaxError (TypeExpr × Tokens)
  | 0, tokens => .error (.expectedType tokens.head?)
  | steps + 1, tokens => do
    let (type, tokens) ← readPlain steps tokens
    return readArrays type tokens

/-- Reads a type without the brackets of lists behind it. -/
def readPlain : (steps : Nat) → Tokens → Except SyntaxError (TypeExpr × Tokens)
  | 0, tokens => .error (.expectedType tokens.head?)
  | steps + 1, tokens =>
    match tokens with
    | .punct '(' :: tokens => do
      let (inner, tokens) ← readType steps tokens
      return (.group inner, ← expectSign ')' tokens)
    | .punct '\x7b' :: tokens => do
      let (members, tokens) ← readMembers steps tokens
      return (members.elim .unknown .object, tokens)
    | .text value :: tokens => return (.literal (.string value), tokens)
    | .number value :: tokens => return (.literal (.number value), tokens)
    | .ident "Record" :: .punct '<' :: tokens => do
      let (_, tokens) ← readType steps tokens
      let (value, tokens) ← readType steps (← expectSign ',' tokens)
      return (.record value, ← expectSign '>' tokens)
    | .ident "Array" :: .punct '<' :: tokens => do
      let (item, tokens) ← readType steps tokens
      return (.array item, ← expectSign '>' tokens)
    | .ident word :: tokens =>
      match wordType word, takeSign '<' tokens with
      | .name name, (true, tokens) => return (.name name, skipClosing '<' '>' 1 tokens)
      | type, _ => return (type, tokens)
    | tokens => throw (.expectedType tokens.head?)

/-- Reads members through the closing brace. -/
def readMembers : (steps : Nat) → Tokens → Except SyntaxError (Members × Tokens)
  | 0, tokens => .error (.expectedMember tokens.head?)
  | steps + 1, tokens =>
    match tokens with
    | .punct '\x7d' :: tokens => return (some [], tokens)
    | .ident name :: tokens | .text name :: tokens => do
      let (optional, tokens) := takeSign '?' tokens
      if (takeSign '(' tokens).1 then
        let (_, tokens) ← readMembers steps (skipMember 0 tokens)
        return (none, tokens)
      else
        let (type, tokens) ← readType steps (← expectSign ':' tokens)
        let tokens :=
          match takeSign ';' tokens with
          | (true, tokens) => tokens
          | (false, tokens) => dropSign ',' tokens
        let (members, tokens) ← readMembers steps tokens
        return (members.map (⟨name, optional, type⟩ :: ·), tokens)
    | tokens => throw (.expectedMember tokens.head?)

end

/-- Enough steps to read a type from the tokens. -/
def typeSteps (tokens : Tokens) : Nat := 3 * tokens.length + 3

/-! ## Statements -/

/-- Reads an interface from behind its name.  What it extends is left out. -/
def readInterface (name : String) (tokens : Tokens) :
    Except SyntaxError (Option Statement × Tokens) := do
  let tokens :=
    match tokens with
    | .ident "extends" :: tokens => tokens.dropWhile (· ≠ .punct '\x7b')
    | tokens => tokens
  let (members, tokens) ← readMembers (typeSteps tokens) (← expectSign '\x7b' tokens)
  return (members.map (.interface name), tokens)

/-- Reads an alias from behind its name. -/
def readAlias (name : String) (tokens : Tokens) :
    Except SyntaxError (Option Statement × Tokens) := do
  let (type, tokens) ← readType (typeSteps tokens) (← expectSign '=' tokens)
  return (some (.typeAlias name type), dropSign ';' tokens)

/-- Reads a statement, or skips it if it is of another sort. -/
def readStatement (tokens : Tokens) : Except SyntaxError (Option Statement × Tokens) :=
  let (exported, inner) :=
    match tokens with
    | .ident "export" :: tokens => (true, tokens)
    | tokens => (false, tokens)
  match exported, inner with
  | true, .ident "default" :: tokens => return (none, skipStatement 0 tokens)
  | _, .ident "interface" :: .ident name :: tokens => readInterface name tokens
  | _, .ident "type" :: .ident name :: tokens => readAlias name tokens
  | _, tokens => return (none, skipStatement 0 tokens)

/-- Reads at most the given number of statements. -/
def statementsFrom : (steps : Nat) → Tokens → Except SyntaxError (List Statement)
  | 0, _ | _, [] => return []
  | steps + 1, tokens => do
    let (statement, tokens) ← readStatement tokens
    let later ← statementsFrom steps tokens
    return statement.toList ++ later

/-- The declarations among the statements of a module.  Each statement has at least one token. -/
def readStatements (tokens : Tokens) : Except SyntaxError (List Statement) :=
  statementsFrom tokens.length tokens

/-- The declarations in the text of a module. -/
def readDeclarations (text : String) : Except SyntaxError (List Statement) := do
  readStatements (← tokenize text)

end TypedClient.Declaration
