import TypedClient.Url.Address
import TypedClient.Url.DomainName

/-!
# Web addresses

* `Url` is an absolute address by its parts and `Url.text` writes it;
* `Url.withSegments` and `Url.withQuery` make the address of something below another.
-/

set_option autoImplicit false

namespace TypedClient

open TypedClient.Text

namespace Url

/-- The host of an address. -/
inductive Host where
  /-- A name. -/
  | domain (name : String)
  /-- An address of four bytes. -/
  | ipv4 (address : Nat)
  /-- An address of eight pieces. -/
  | ipv6 (pieces : List Nat)
  deriving DecidableEq

/-- The text of a host. -/
def Host.text : Host → String
  | .domain name => name
  | .ipv4 address => ipv4Text address
  | .ipv6 pieces => ipv6Text pieces

/-- Why a text is no address. -/
inductive ParseError where
  /-- The host is missing. -/
  | emptyHost
  /-- The host is no domain name. -/
  | badName
  /-- The host has a character it may not have. -/
  | badCharacter
  /-- The port is no number, or too great. -/
  | badPort
  /-- The host ends in a number but is no address of four bytes. -/
  | badIpv4
  /-- The host is no address of eight pieces. -/
  | badIpv6
  /-- There is no scheme. -/
  | relative
  deriving DecidableEq

/-- The wording of an error. -/
def ParseError.message : ParseError → String
  | .emptyHost => "empty host"
  | .badName => "invalid international domain name"
  | .badCharacter => "invalid domain character"
  | .badPort => "invalid port number"
  | .badIpv4 => "invalid IPv4 address"
  | .badIpv6 => "invalid IPv6 address"
  | .relative => "relative URL without a base"

end Url

/-- An absolute address.  All its parts are in their encoded form. -/
structure Url where
  /-- The scheme. -/
  scheme : String
  /-- The user name. -/
  username : String
  /-- The password. -/
  password : Option String
  /-- The host. -/
  host : Url.Host
  /-- The port, unless it is the usual one of the scheme. -/
  port : Option Nat
  /-- The segments of the path, of which there is at least one. -/
  segments : List (List Char)
  /-- The query. -/
  query : Option (List Char)
  /-- The fragment. -/
  fragment : Option (List Char)
  deriving DecidableEq

namespace Url

/-- User name and password as they stand before the host. -/
def userinfo (u : Url) : String :=
  let password := (u.password.map (":" ++ ·)).getD ""
  if u.username.isEmpty && u.password.isNone then "" else u.username ++ password ++ "@"

/-- The text of the segments, each behind a slash. -/
def pathText (segments : List (List Char)) : List Char := segments.flatMap ('/' :: ·)

/-- The text of an address. -/
def text (u : Url) : String :=
  let port := (u.port.map fun n => ":" ++ toString n).getD ""
  let query := (u.query.map ('?' :: ·)).getD []
  let fragment := (u.fragment.map ('#' :: ·)).getD []
  u.scheme ++ "://" ++ u.userinfo ++ u.host.text ++ port ++
    String.ofList (pathText u.segments ++ query ++ fragment)

/-! ## Paths -/

/-- Whether an encoded segment stands for the directory it is in. -/
def isSingleDot (segment : List Char) : Bool :=
  let s := String.ofList segment
  s == "." || lowerAscii s == "%2e"

/-- Whether an encoded segment stands for the directory above. -/
def isDoubleDot (segment : List Char) : Bool :=
  [".." , ".%2e", "%2e.", "%2e%2e"].contains (lowerAscii (String.ofList segment))

/-- Whether a segment is the name of a drive, which nothing leads above of. -/
def isDrive : List Char → Bool
  | [letter, mark] => letter.isAlpha && (mark == ':' || mark == '|')
  | _ => false

/-- The segments of the directory above. -/
def parent (segments : List (List Char)) : List (List Char) :=
  match segments.getLast? with
  | some last => if isDrive last then segments else segments.dropLast
  | none => []

/-- The directories of a path after one more segment, and the segment that is then the last. -/
def enter (directories : List (List Char)) (segment : List Char) :
    List (List Char) × List Char :=
  if isDoubleDot segment then (parent directories, [])
  else if isSingleDot segment then (directories, [])
  else (directories, segment)

/-- The directories of a path after one more segment and a slash. -/
def enterDirectory (directories : List (List Char)) (segment : List Char) :
    List (List Char) :=
  if isDoubleDot segment then parent directories
  else if isSingleDot segment then directories
  else directories ++ [segment]

/-- Whether the character is skipped wherever it stands in an address. -/
def isSkipped (c : Char) : Bool := c == '\t' || c == '\n' || c == '\r'

/-- The path with one more segment behind it, given by its plain text.  The segments `.` and `..`
are left out, and the root has no segment of its own. -/
def addSegment (segments : List (List Char)) (plain : String) : List (List Char) :=
  if plain == "." || plain == ".." then segments
  else
    let directories := if segments = [[]] then [] else segments
    let segment := encode hiddenInSegment (plain.toList.filter (!isSkipped ·))
    let (directories, last) := enter directories segment
    directories ++ [last]

/-- The path without its last segment if that is empty and not the only one. -/
def dropEmptyEnd (segments : List (List Char)) : List (List Char) :=
  if 1 < segments.length ∧ segments.getLast? = some [] then segments.dropLast else segments

/-- The address with segments added behind its path, given by their plain text. -/
def withSegments (u : Url) (plain : List String) : Url :=
  { u with segments := plain.foldl addSegment (dropEmptyEnd u.segments) }

/-- The address with its query replaced. -/
def withQuery (u : Url) (plain : Option String) : Url :=
  let encoded (text : String) : List Char :=
    encode hiddenInQuery (text.toList.filter (!isSkipped ·))
  { u with query := plain.map encoded }

end Url

end TypedClient
