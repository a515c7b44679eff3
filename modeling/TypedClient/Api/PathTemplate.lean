/-!
# Path templates

A path template is text with placeholders: a name between an opening brace and the next closing
brace.  An opening brace that is never closed is text, with all that follows it.

* `pieces` cuts a template into text and placeholders;
* `placeholders` lists the names of its placeholders, each once;
* `fill` puts texts in place of them.
-/

set_option autoImplicit false

namespace TypedClient.Api

/-- A part of a path template. -/
inductive Piece where
  /-- Text that stands for itself. -/
  | literal (text : List Char)
  /-- A placeholder. -/
  | placeholder (name : List Char)
  deriving DecidableEq, Repr

/-- The pieces of a template, where `text` holds the characters of the literal begun so far and
`name` those of the placeholder that has been opened, both last first. -/
def piecesFrom (text : List Char) : (name : Option (List Char)) → List Char → List Piece
  | none, [] => [.literal text.reverse]
  | some name, [] => [.literal (text.reverse ++ '\x7b' :: name.reverse)]
  | none, c :: rest =>
    if c = '\x7b' then piecesFrom text (some []) rest else piecesFrom (c :: text) none rest
  | some name, c :: rest =>
    if c = '\x7d' then .literal text.reverse :: .placeholder name.reverse :: piecesFrom [] none rest
    else piecesFrom text (some (c :: name)) rest

/-- The pieces of a template, literals and placeholders in turn. -/
def pieces (template : List Char) : List Piece := piecesFrom [] none template

/-- The names of placeholders among pieces. -/
def namesOf (pieces : List Piece) : List (List Char) :=
  pieces.filterMap fun piece =>
    match piece with
    | .placeholder name => some name
    | .literal _ => none

/-- The list without the repetitions of its items. -/
def distinct {α : Type} [BEq α] (items : List α) : List α :=
  (items.foldl (fun seen item => if seen.contains item then seen else item :: seen) []).reverse

/-- The names of the placeholders of a template that are not empty, each once, in order. -/
def placeholders (template : String) : List String :=
  (distinct ((namesOf (pieces template.toList)).filter (!·.isEmpty))).map String.ofList

/-- The text of a piece, with placeholders replaced; one without a text of its own stays. -/
def Piece.fill (text : List Char → Option (List Char)) : Piece → List Char
  | .literal cs => cs
  | .placeholder name => (text name).getD ('\x7b' :: name ++ ['\x7d'])

/-- The template with texts in place of its placeholders. -/
def fill (text : List Char → Option (List Char)) (template : List Char) : List Char :=
  (pieces template).flatMap (Piece.fill text)

end TypedClient.Api
