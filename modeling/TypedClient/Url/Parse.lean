import TypedClient.Text.Split
import TypedClient.Url.Basic

/-!
# Reading addresses

An address is read from left to right: scheme, user and password, host, port, path, query and
fragment.  Tabs and line ends are skipped wherever they stand, and controls and blanks at both ends.

* `Url.read` reads a text.  Addresses that are no web addresses are read as far as their host can be
  malformed, because the reader has to tell a malformed address from one of another kind;
* `Url.ofText` reads a web address.
-/

set_option autoImplicit false

namespace TypedClient.Url

open TypedClient.Text

/-! ## Scheme -/

/-- The kinds of schemes. -/
inductive SchemeType where
  /-- A scheme of the web, whose addresses have a host. -/
  | web
  /-- The scheme of local files. -/
  | file
  /-- Any other scheme. -/
  | other
  deriving DecidableEq

/-- The kind of a scheme. -/
def schemeType (scheme : String) : SchemeType :=
  if ["http", "https", "ws", "wss", "ftp"].contains scheme then .web
  else if scheme = "file" then .file
  else .other

/-- The port that an address of a scheme has when it names none. -/
def usualPort (scheme : String) : Option Nat :=
  [("http", 80), ("https", 443), ("ws", 80), ("wss", 443), ("ftp", 21)].lookup scheme

/-- The scheme at the start of a text, in lower case, and what follows its colon. -/
def scheme? (text : List Char) : Option (String × List Char) :=
  let isPart (c : Char) : Bool := c.isAlphanum || c == '+' || c == '-' || c == '.'
  let scheme := text.takeWhile isPart
  match scheme, text.dropWhile isPart with
  | first :: _, ':' :: rest =>
    if first.isAlpha then some (String.ofList (scheme.map Char.toLower), rest) else none
  | _, _ => none

/-! ## User, password, host and port -/

/-- Whether the character ends the host and what precedes it. -/
def endsAuthority (special : Bool) (c : Char) : Bool :=
  c == '/' || c == '?' || c == '#' || (special && c == '\\')

/-- User name and password before the last at sign, both encoded, and what follows it. -/
structure Userinfo where
  /-- The user name. -/
  username : List Char
  /-- The password, if there is one that is not empty. -/
  password : Option (List Char)
  /-- What follows. -/
  rest : List Char

/-- Cuts user name and password off the text behind the slashes.  With nothing before the at sign
there has to be a host behind it. -/
def readUserinfo (special : Bool) (text : List Char) : Except ParseError Userinfo :=
  let authority := text.takeWhile (!endsAuthority special ·)
  let beyond := text.dropWhile (!endsAuthority special ·)
  match cutAtLast? '@' authority with
  | none => .ok ⟨[], none, text⟩
  | some ([], []) => if beyond.isEmpty then .ok ⟨[], none, []⟩ else .error .emptyHost
  | some (before, after) =>
    let (username, password) := (cutAt? ':' before).getD (before, [])
    let encoded := encode hiddenInUserinfo
    .ok ⟨encoded username, if password.isEmpty then none else some (encoded password),
      after ++ beyond⟩

/-- The length of the host at the start of a text.  Within brackets colons are part of it. -/
def hostLength (special bracketed : Bool) : List Char → Nat
  | [] => 0
  | c :: rest =>
    if (c = ':' ∧ !bracketed) ∨ endsAuthority special c then 0
    else
      let bracketed := if c = '[' then true else if c = ']' then false else bracketed
      hostLength special bracketed rest + 1

/-- Reads a host in brackets, if it is one. -/
def bracketedHost? : List Char → Option (Except ParseError Host)
  | '[' :: rest =>
    match rest.getLast? with
    | some ']' =>
      match ipv6? rest.dropLast with
      | some pieces => some (.ok (.ipv6 pieces))
      | none => some (.error .badIpv6)
    | _ => some (.error .badIpv6)
  | _ => none

/-- Reads the host of a web address. -/
def readHost (text : List Char) : Except ParseError Host :=
  match bracketedHost? text with
  | some result => result
  | none =>
    match domainName? (decode (encodeUtf8 (String.ofList text))) with
    | none => .error .badName
    | some [] => .error .emptyHost
    | some name =>
      if endsInNumber name then
        match ipv4? name with
        | some address => .ok (.ipv4 address)
        | none => .error .badIpv4
      else .ok (.domain (String.ofList name))

/-- Reads the host of an address of another scheme, which may be empty. -/
def readOtherHost (text : List Char) : Except ParseError Host :=
  match bracketedHost? text with
  | some result => result
  | none =>
    if text.any (fun c => "\x00\t\n\r #/:<>?@[\\]^|".toList.contains c) then .error .badCharacter
    else .ok (.domain (String.ofList (encode isControl text)))

/-- Reads a port and what follows it, given what follows the colon. -/
def readPort (scheme : String) (text : List Char) : Except ParseError (Option Nat × List Char) :=
  let (digits, rest) := leadingDigits text
  let ended := (rest.head?.map (endsAuthority true)).getD true
  match readDigits? digits with
  | none => if ended then .ok (none, rest) else .error .badPort
  | some port =>
    if 65535 < port ∨ !ended then .error .badPort
    else .ok (if usualPort scheme = some port then none else some port, rest)

/-- What stands between the scheme and the path. -/
structure Authority where
  /-- The user name and password. -/
  userinfo : Userinfo
  /-- The host. -/
  host : Host
  /-- The port. -/
  port : Option Nat
  /-- The path and what follows it. -/
  rest : List Char

/-- Reads what stands between the scheme and the path. -/
def readAuthority (scheme : String) (text : List Char) : Except ParseError Authority := do
  let special := schemeType scheme = .web
  let user ← readUserinfo special text
  let length := hostLength special false user.rest
  let name := user.rest.take length
  let rest := user.rest.drop length
  let host ←
    if special then if name.isEmpty then throw .emptyHost else readHost name
    else readOtherHost name
  let empty := host = .domain ""
  match rest with
  | ':' :: rest =>
    if empty then throw .emptyHost
    let (port, rest) ← readPort scheme rest
    return ⟨user, host, port, rest⟩
  | rest =>
    if empty && !(user.username.isEmpty && user.password.isNone) then throw .emptyHost
    return ⟨user, host, none, rest⟩

/-! ## Path -/

/-- The segments of a path, given the directories before it and the characters of the segment begun
so far, last first. -/
def readSegments (directories : List (List Char)) (reversed : List Char) :
    List Char → List (List Char)
  | [] =>
    let (directories, last) := enter directories (encode hiddenInPath reversed.reverse)
    directories ++ [last]
  | c :: rest =>
    if c = '/' ∨ c = '\\' then
      readSegments (enterDirectory directories (encode hiddenInPath reversed.reverse)) [] rest
    else readSegments directories (c :: reversed) rest

/-- The segments of the path of a web address. -/
def readPath (text : List Char) : List (List Char) :=
  match text with
  | '/' :: rest | '\\' :: rest => readSegments [] [] rest
  | text => readSegments [] [] text

/-! ## Addresses -/

/-- The text that an address is read from. -/
def significant (text : String) : List Char :=
  let isEdge (c : Char) : Bool := c.toNat ≤ 0x20
  let trimmed := ((text.toList.dropWhile isEdge).reverse.dropWhile isEdge).reverse
  trimmed.filter (!isSkipped ·)

/-- Reads a web address from behind its scheme; any number of slashes of either kind may follow. -/
def readWeb (scheme : String) (text : List Char) : Except ParseError Url := do
  let a ← readAuthority scheme (text.dropWhile fun c => c == '/' || c == '\\')
  let path := a.rest.takeWhile fun c => c != '?' && c != '#'
  let beyond := a.rest.dropWhile fun c => c != '?' && c != '#'
  let query := (beyond.takeWhile (· != '#')).drop 1
  let fragment := (beyond.dropWhile (· != '#')).drop 1
  return {
    scheme
    username := String.ofList a.userinfo.username
    password := a.userinfo.password.map String.ofList
    host := a.host
    port := a.port
    segments := readPath path
    query := if beyond.head? = some '?' then some (encode hiddenInQuery query) else none
    fragment := if beyond.contains '#' then some (encode hiddenInFragment fragment) else none }

/-- Checks the host of the address of a file, from behind the scheme.  A drive is no host. -/
def checkFile (text : List Char) : Except ParseError Unit :=
  match text with
  | a :: b :: rest =>
    if (a = '/' ∨ a = '\\') ∧ (b = '/' ∨ b = '\\') then do
      let name := rest.takeWhile (!endsAuthority true ·)
      if !name.isEmpty && !isDrive name then
        let _ ← readHost name
    else .ok ()
  | _ => .ok ()

/-- Reads an address; nothing for one that is well formed but no web address. -/
def read (text : String) : Except ParseError (Option Url) := do
  match scheme? (significant text) with
  | none => throw .relative
  | some (scheme, rest) =>
    match schemeType scheme with
    | .web => return some (← readWeb scheme rest)
    | .file =>
      checkFile rest
      return none
    | .other =>
      match rest with
      | '/' :: '/' :: rest =>
        let _ ← readAuthority scheme rest
        return none
      | _ => return none

/-- Why a text is no web address. -/
inductive Refusal where
  /-- It is malformed. -/
  | malformed (error : ParseError)
  /-- It is an address of another kind. -/
  | notWeb

/-- Reads a web address of one of the two schemes of HTTP. -/
def ofText (text : String) : Except Refusal Url :=
  match read text with
  | .error e => .error (.malformed e)
  | .ok none => .error .notWeb
  | .ok (some u) =>
    if u.scheme = "http" ∨ u.scheme = "https" then .ok u else .error .notWeb

end TypedClient.Url
