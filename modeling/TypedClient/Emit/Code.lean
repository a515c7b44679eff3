import TypedClient.Json.Quoted
import TypedClient.Text.Split

/-!
# Lines of code

Emitted modules are put together from lines.

* `indented` moves lines to the right, and `enclosed`, `block` and `branches` put
  them between braces;
* `Dialect` is the language and the module syntax of the code.  Annotations and exports are written
  only where the dialect has them;
* `tidy` is the last step: no line ends in white space, and blank lines only stand alone between
  others.
-/

set_option autoImplicit false

namespace TypedClient.Emit

open TypedClient.Text

/-- Lines of code. -/
abbrev Code := List String

/-- Lines moved to the right by one level. -/
def indented (code : Code) : Code := code.map ("  " ++ ·)

/-- Text in braces. -/
def inBraces (inner : String) : String := "\x7b" ++ inner ++ "\x7d"

/-- Parts in braces, with commas between them. -/
def record (parts : List String) : String := inBraces (" " ++ ", ".intercalate parts ++ " ")

/-- The empty record. -/
def emptyRecord : String := inBraces ""

/-- A place in a template literal where the value of an expression goes. -/
def hole (expression : String) : String := "$" ++ inBraces expression

/-- A line that ends in an opening brace, lines one level deeper, and a line that starts with the
closing brace. -/
def enclosed (before : String) (body : Code) (after : String) : Code :=
  [before ++ "\x7b"] ++ indented body ++ ["\x7d" ++ after]

/-- The lines of a statement that has a body. -/
def block (head : String) (body : Code) : Code := enclosed (head ++ " ") body ""

/-- Blocks that go on each other, such as the branches of an `if`. -/
def branches (head : String) (body : Code) (more : List (String × Code)) : Code :=
  [head ++ " \x7b"] ++ indented body ++
    more.flatMap (fun (head, body) => ["\x7d " ++ head ++ " \x7b"] ++ indented body) ++ ["\x7d"]

/-- The language and the module syntax of emitted code. -/
structure Dialect where
  /-- Whether types are written. -/
  typescript : Bool
  /-- Whether there are import and export statements. -/
  modules : Bool
  deriving DecidableEq

namespace Dialect

/-- A name or a parameter list with its type behind it, where types are written. -/
def typed (d : Dialect) (subject type : String) : String :=
  if d.typescript then subject ++ ": " ++ type else subject

/-- The words before a declaration that other modules can see. -/
def exported (d : Dialect) : String := if d.modules then "export " else ""

/-- A function, from the words before `function` on. -/
def function (d : Dialect) (words name : String) (parameters : List String) (result : String)
    (body : Code) : Code :=
  let head := d.typed ("(" ++ ", ".intercalate parameters ++ ")") result
  block (words ++ "function " ++ name ++ " " ++ head) body

end Dialect

/-- Leaves out blank lines that follow another, and those at the start if `blank` is set. -/
def collapseBlank (blank : Bool) : List (List Char) → List (List Char)
  | [] => []
  | line :: rest =>
    if line.isEmpty then
      if blank then collapseBlank true rest else line :: collapseBlank true rest
    else line :: collapseBlank false rest

/-- Lines of code that hold no line break and do not end in white space, with single blank lines at
most, none of them first or last. -/
def tidy (code : Code) : Code :=
  let trimmed := (lines ("\n".intercalate code).toList).map trimEnd
  let collapsed := collapseBlank true trimmed
  let kept := if collapsed.getLast? = some [] then collapsed.dropLast else collapsed
  kept.map String.ofList

/-- The text of lines, each ended. -/
def textOf (code : Code) : String := String.join (code.map (· ++ "\n"))

end TypedClient.Emit
