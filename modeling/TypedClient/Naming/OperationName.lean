import TypedClient.Api.Operation
import TypedClient.Dict
import TypedClient.Naming.Words
import TypedClient.Text.Split

/-!
# Names of operations

An operation keeps the identifier its schema gives it.  One without gets a name made from its
method and its path: `GET /movies/{id}/quotes` becomes `getMoviesIdQuotes`.  A POST whose last
segment is an action (`/users/login`, `/movies:batchGet`) takes that action for its verb.

* `derivedName` makes the name of one operation;
* `resolveNames` names all operations of a definition.  Derived names that collide are told apart
  by the first segment in which their paths differ; what still collides is an error.
-/

set_option autoImplicit false

namespace TypedClient.Naming

open TypedClient.Api TypedClient.Text

/-- First words that mark the last segment of a POST path as an action. -/
def actionVerbs : List String :=
  ["activate", "approve", "archive", "assign", "authenticate", "authorize", "batch", "cancel",
    "check", "clone", "close", "complete", "confirm", "copy", "deactivate", "disable", "download",
    "enable", "execute", "export", "generate", "import", "invite", "lock", "login", "logout",
    "merge", "move", "open", "preview", "publish", "query", "refresh", "register", "reject",
    "reset", "restore", "resume", "retry", "revoke", "run", "search", "send", "start", "stop",
    "submit", "subscribe", "suspend", "sync", "test", "trigger", "unarchive", "unlock",
    "unpublish", "unsubscribe", "upload", "validate", "verify"]

/-- The verb a method puts in front of a name. -/
def verb : Method → String
  | .get => "get"
  | .post => "create"
  | .put | .patch => "update"
  | .delete => "delete"
  | .head => "head"
  | .options => "options"

/-- The segments of a path, empty ones left out. -/
def pathSegments (path : String) : List String :=
  ((splitOn '/' path.toList).filter (!·.isEmpty)).map String.ofList

/-- Whether a segment is one placeholder in braces. -/
def isTemplate (segment : String) : Bool :=
  segment.toList.head? = some '\x7b' && segment.toList.getLast? = some '\x7d'

/-- The action written after a colon in a segment, with what stands before the colon. -/
def customAction? (segment : String) : Option (String × String) := do
  let (resource, action) ← cutAtLast? ':' segment.toList
  if action.isEmpty || action.contains '\x7d' then none
  else some (.ofList resource, .ofList action)

/-- Splits the last segment of a POST path into the verb it gives and the segments it leaves. -/
def takeAction? (segments : List String) : Option (String × List String) := do
  let last ← segments.getLast?
  match customAction? last with
  | some (resource, action) =>
    let kept := if resource.isEmpty then [] else [resource]
    return (camelCase action, segments.dropLast ++ kept)
  | none =>
    if isTemplate last then none
    else
      let first ← (words last).head?
      if actionVerbs.contains (lowerText first) then
        return (camelCase last, segments.dropLast)
      else none

/-- The name made from a method and a path. -/
def derivedName (method : Method) (path : String) : String :=
  let segments := pathSegments path
  let (start, rest) :=
    match method with
    | .post => (takeAction? segments).getD (verb method, segments)
    | _ => (verb method, segments)
  if rest.isEmpty then start ++ "Root" else start ++ String.join (rest.map pascalCase)

/-- What is known of an operation before it has a name. -/
structure Candidate where
  /-- The identifier the schema gives. -/
  explicit : Option String
  /-- The method of the operation. -/
  method : Method
  /-- The path template of the operation. -/
  path : String

/-- The name of an operation before collisions are looked at. -/
def Candidate.firstName (c : Candidate) : String :=
  c.explicit.getD (derivedName c.method c.path)

/-- The index of the first segment that the paths do not all share, where a path that has ended
differs from one that has not. -/
def firstDifference? (paths : List (List String)) : Option Nat :=
  let longest := (paths.map List.length).foldl max 0
  (List.range longest).find? fun i =>
    paths.any fun path => path[i]? != (paths.head?.bind (·[i]?))

/-- What a segment adds to a name to tell it apart. -/
def suffix (segment : String) : String :=
  if isTemplate segment then "By" ++ pascalCase segment else pascalCase segment

/-- The paths of the candidates whose first name is the given one. -/
def rivalPaths (candidates : List Candidate) (name : String) : List (List String) :=
  (candidates.filter (·.firstName == name)).map fun c => pathSegments c.path

/-- The name of a candidate among all candidates.  An explicit identifier stays; a derived name that
others share gets the suffix of the first segment where the paths differ, if its own path reaches
that far. -/
def finalName (candidates : List Candidate) (c : Candidate) : String :=
  match c.explicit with
  | some id => id
  | none =>
    let name := c.firstName
    let rivals := rivalPaths candidates name
    if rivals.length ≤ 1 then name
    else
      match firstDifference? rivals with
      | none => name
      | some i =>
        match (pathSegments c.path)[i]? with
        | some segment => name ++ suffix segment
        | none => name

/-- The names that occur more than once, each once, in order. -/
def sharedNames (names : List String) : List String :=
  Dict.keys (Dict.ofList ((names.filter fun name => 1 < names.count name).map fun n => (n, ())))

/-- Names for all candidates, in their order, or the sorted names that remain shared. -/
def resolveNames (candidates : List Candidate) : Except (List String) (List String) :=
  let names := candidates.map (finalName candidates)
  match sharedNames names with
  | [] => .ok names
  | shared => .error shared

end TypedClient.Naming
