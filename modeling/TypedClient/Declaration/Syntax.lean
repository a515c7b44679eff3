import TypedClient.Json.Printer
import TypedClient.Naming.Identifier
import TypedClient.Text.Split
import TypedClient.Types.Graph

/-!
# Syntax of declarations

The part of the type language of TypeScript that declarations are written in: interfaces and type
aliases over a handful of type expressions.

* `TypeExpr` is a type expression and `TypeExpr.text` writes it.  Parentheses are part of the
  expression, so that writing adds nothing;
* `Statement` is a declaration and `Statement.lines` writes it;
* `docComment` writes what a schema says in words.  A comment must end where it is meant to, so the
  characters that would end it are written with a backslash between them.
-/

set_option autoImplicit false

namespace TypedClient.Declaration

open TypedClient.Text
open TypedClient.Types (Primitive)

/-- A member of an object type, whose types are of the given kind. -/
structure Member (α : Type) where
  /-- The name. -/
  name : String
  /-- Whether the member may be missing. -/
  optional : Bool
  /-- The type. -/
  type : α

/-- A type expression. -/
inductive TypeExpr where
  /-- The type of all values. -/
  | unknown
  /-- A scalar type. -/
  | primitive (of : Primitive)
  /-- The type of one scalar. -/
  | literal (value : Json)
  /-- A type by its name. -/
  | name (name : String)
  /-- Lists. -/
  | array (item : TypeExpr)
  /-- Objects with members of one type. -/
  | record (value : TypeExpr)
  /-- Objects with the given members. -/
  | object (members : List (Member TypeExpr))
  /-- The values of any of the given types. -/
  | union (members : List TypeExpr)
  /-- An expression in parentheses. -/
  | group (inner : TypeExpr)
  /-- An expression with a comment behind it. -/
  | noted (inner : TypeExpr) (note : String)

instance : Inhabited TypeExpr := ⟨.unknown⟩

/-- An opening brace, the given parts with semicolons between them, and a closing brace. -/
def braced (parts : List String) : String :=
  if parts.isEmpty then "\x7b\x7d"
  else "\x7b " ++ String.intercalate "; " parts ++ " \x7d"

/-- A member, given the text of its type. -/
def memberText (name : String) (optional : Bool) (type : String) : String :=
  Naming.propertyKey name ++ (if optional then "?: " else ": ") ++ type

mutual

/-- The text of a type expression. -/
def TypeExpr.text : TypeExpr → String
  | .unknown => "unknown"
  | .primitive p => p.text
  | .literal value => value.compact
  | .name name => name
  | .array item => item.text ++ "[]"
  | .record value => "Record<string, " ++ value.text ++ ">"
  | .object members => braced (memberTexts members)
  | .union members => String.intercalate " | " (texts members)
  | .group inner => "(" ++ inner.text ++ ")"
  | .noted inner note => inner.text ++ " /* " ++ note ++ " */"

/-- The texts of type expressions. -/
def texts : List TypeExpr → List String
  | [] => []
  | expr :: rest => expr.text :: texts rest

/-- The texts of members. -/
def memberTexts : List (Member TypeExpr) → List String
  | [] => []
  | ⟨name, optional, type⟩ :: rest => memberText name optional type.text :: memberTexts rest

end

/-- A declaration of a type. -/
inductive Statement where
  /-- An object type by its members. -/
  | interface (name : String) (members : List (Member TypeExpr))
  /-- A name for a type. -/
  | typeAlias (name : String) (type : TypeExpr)

/-- The name that a declaration declares. -/
def Statement.name : Statement → String
  | interface name _ | typeAlias name _ => name

/-- The lines of an interface, given the lines of its members. -/
def interfaceLines (name : String) (members : List String) : List String :=
  if members.isEmpty then ["export interface " ++ name ++ " \x7b\x7d"]
  else ["export interface " ++ name ++ " \x7b"] ++ members ++ ["\x7d"]

/-- The line of a member of an interface. -/
def memberLine (member : String) : String := "  " ++ member ++ ";"

/-- The lines of a declaration. -/
def Statement.lines : Statement → List String
  | interface name members => interfaceLines name ((memberTexts members).map memberLine)
  | typeAlias name type => ["export type " ++ name ++ " = " ++ type.text ++ ";"]

/-! ## Comments -/

/-- The text with a backslash between an asterisk and a slash. -/
def inComment (text : List Char) : List Char := replacePair '*' '/' ['*', '\\', '/'] text

/-- The lines of a doc comment; there is none for a text without words.  A text of one line has a
comment of one line. -/
def docComment (text : Option String) (indent : String) : List String :=
  match trim (text.getD "").toList with
  | [] => []
  | words =>
    match lines (inComment words) with
    | [line] => [indent ++ "/** " ++ String.ofList line ++ " */"]
    | lines =>
      let inner (line : List Char) : String :=
        match trimEnd line with
        | [] => indent ++ " *"
        | words => indent ++ " * " ++ String.ofList words
      [indent ++ "/**"] ++ lines.map inner ++ [indent ++ " */"]

end TypedClient.Declaration
