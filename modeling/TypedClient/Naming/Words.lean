import TypedClient.Text.CaseMap

/-!
# Words of a name

A name such as `movie-quotes`, `movie_quotes` or `movieQuotes` is made of words.  Everything that
is neither letter nor digit separates words, and so does the step from a lower-case letter or a
digit to an upper-case letter.

* `words` lists the words, each in its own case;
* `pascalCase` and `camelCase` join them again with capitals in place of the separators.
-/

set_option autoImplicit false

namespace TypedClient.Naming

open TypedClient.Text

/-- Whether a new word starts at `c`, directly after the character `before` of a word. -/
def startsWord (before c : Char) : Bool :=
  (isLowercase before || before.isDigit) && isUppercase c

/-- The word whose characters are given last first, if it has any. -/
def finishedWord : List Char → List (List Char)
  | [] => []
  | reversed => [reversed.reverse]

/-- The words of a text, where `current` holds the characters of the word begun so far, last
first. -/
def wordsFrom (current : List Char) : List Char → List (List Char)
  | [] => finishedWord current
  | c :: rest =>
    if !isAlphanumeric c then finishedWord current ++ wordsFrom [] rest
    else
      match current with
      | [] => wordsFrom [c] rest
      | before :: _ =>
        if startsWord before c then finishedWord current ++ wordsFrom [c] rest
        else wordsFrom (c :: current) rest

/-- The words of a text. -/
def words (s : String) : List String := (wordsFrom [] s.toList).map String.ofList

/-- The text with its first character in upper case. -/
def capitalize (word : String) : String :=
  match word.toList with
  | [] => ""
  | first :: rest => String.ofList (upper first ++ rest)

/-- The words with each first character in upper case, joined. -/
def pascalCase (s : String) : String := String.join ((words s).map capitalize)

/-- The words joined, the first in lower case and the others capitalized. -/
def camelCase (s : String) : String :=
  match words s with
  | [] => ""
  | first :: rest => lowerText first ++ String.join (rest.map capitalize)

end TypedClient.Naming
