import TypedClient.Yaml.Token

/-!
# Nodes

The tokens of a document make up a tree of nodes.  References to anchors stay in the tree as
references, by the number of the anchor.  The number of an anchor is the count of different names
met before it, so an anchor that takes a name again may share its number with a later one.

* `Node` is a node;
* `readNode` reads one from the front of a list of tokens, in one of three places;
* `document?` reads the only document of a text: the tree, or nothing if there is none.
-/

set_option autoImplicit false

namespace TypedClient.Yaml

/-- What stands before the contents of a node. -/
structure Properties where
  /-- The number of its anchor. -/
  anchor : Option Nat
  /-- Its tag. -/
  tag : Option String

/-- No properties. -/
def Properties.none : Properties := ⟨.none, .none⟩

/-- A node. -/
inductive Node where
  /-- A scalar, and whether it is written without marks. -/
  | scalar (properties : Properties) (plain : Bool) (text : String)
  /-- A list. -/
  | sequence (properties : Properties) (items : List Node)
  /-- A mapping. -/
  | mapping (properties : Properties) (entries : List (Node × Node))
  /-- A reference to an anchor. -/
  | aliasOf (anchor : Nat)

/-- The node that stands where nothing is written. -/
def Node.absent : Node := .scalar .none true ""

/-- What is known while a document is read. -/
structure Scope where
  /-- The meanings of the handles of tags. -/
  handles : List (List Char × List Char)
  /-- The numbers of the anchors by their names. -/
  anchors : List (List Char × Nat)

/-- The anchors with one more name, which gets the count of names so far as its number. -/
def Scope.register (scope : Scope) (name : List Char) : Scope × Nat :=
  let number := scope.anchors.length
  ({ scope with anchors := (name, number) :: scope.anchors.filter (·.1 != name) }, number)

/-- The text of a tag, if its handle has a meaning. -/
def Scope.tag? (scope : Scope) (handle suffix : List Char) : Option String :=
  if handle.isEmpty then some (.ofList suffix)
  else (scope.handles.lookup handle).map fun meaning => .ofList (meaning ++ suffix)

/-- Reads an anchor and a tag, in either order; both are optional. -/
def readProperties (scope : Scope) (tokens : List Token) :
    Option (Properties × Scope × List Token) :=
  match tokens with
  | .anchor name :: .tag handle suffix :: rest | .tag handle suffix :: .anchor name :: rest => do
    let tag ← scope.tag? handle suffix
    let (scope, number) := scope.register name
    return (⟨some number, some tag⟩, scope, rest)
  | .anchor name :: rest =>
    let (scope, number) := scope.register name
    some (⟨some number, none⟩, scope, rest)
  | .tag handle suffix :: rest => do return (⟨none, some (← scope.tag? handle suffix)⟩, scope, rest)
  | _ => some (.none, scope, tokens)

/-- The properties of a scalar: a tag that is an exclamation mark alone says nothing. -/
def scalarProperties (p : Properties) : Properties :=
  if p.tag = some "!" then { p with tag := none } else p

/-- The place of a node, which decides which collections it may be. -/
inductive Place where
  /-- Inside brackets or braces. -/
  | flow
  /-- An item of a block list, or a whole document. -/
  | block
  /-- The key or the value of a block mapping, where a list needs no indentation. -/
  | blockMember
  deriving DecidableEq

/-- What has been read, with what is known after it and the tokens that follow. -/
abbrev Front (α : Type) := α × Scope × List Token

mutual

/-- Reads the node at the front of the tokens. -/
def readNode (scope : Scope) (place : Place) :
    (steps : Nat) → List Token → Option (Front Node)
  | 0, _ => none
  | _ + 1, .aliasOf name :: rest => do return (.aliasOf (← scope.anchors.lookup name), scope, rest)
  | steps + 1, tokens => do
    let (p, scope, tokens) ← readProperties scope tokens
    match tokens with
    | .scalar plain text :: rest =>
      return (.scalar (scalarProperties p) plain (.ofList text), scope, rest)
    | .flowSequence :: rest =>
      let (items, scope, rest) ← flowItems scope true steps rest
      return (.sequence p items, scope, rest)
    | .flowMapping :: rest =>
      let (entries, scope, rest) ← flowEntries scope true steps rest
      return (.mapping p entries, scope, rest)
    | .blockEntry :: _ =>
      if place = .blockMember then
        let (items, scope, rest) ← plainItems scope steps tokens
        return (.sequence p items, scope, rest)
      else if p.anchor.isSome || p.tag.isSome then return (.scalar p true "", scope, tokens)
      else none
    | .blockSequence :: rest =>
      if place = .flow then none
      else
        let (items, scope, rest) ← blockItems scope steps rest
        return (.sequence p items, scope, rest)
    | .blockMapping :: rest =>
      if place = .flow then none
      else
        let (entries, scope, rest) ← blockEntries scope steps rest
        return (.mapping p entries, scope, rest)
    | _ =>
      if p.anchor.isSome || p.tag.isSome then return (.scalar p true "", scope, tokens) else none

/-- Reads a node, or nothing where one of the given tokens follows. -/
def readUnless (scope : Scope) (place : Place) (ends : Token → Bool) :
    (steps : Nat) → List Token → Option (Front Node)
  | 0, _ => none
  | steps + 1, tokens =>
    match tokens with
    | [] => readNode scope place steps tokens
    | token :: _ =>
      if ends token then some (.absent, scope, tokens) else readNode scope place steps tokens

/-- Reads the items of a block list. -/
def blockItems (scope : Scope) : (steps : Nat) → List Token → Option (Front (List Node))
  | 0, _ => none
  | steps + 1, .blockEntry :: rest => do
    let ends (t : Token) : Bool := t = .blockEntry || t = .blockEnd
    let (item, scope, rest) ← readUnless scope .block ends steps rest
    let (items, scope, rest) ← blockItems scope steps rest
    return (item :: items, scope, rest)
  | _ + 1, .blockEnd :: rest => some ([], scope, rest)
  | _ + 1, _ => none

/-- Reads the items of a list that has no indentation of its own. -/
def plainItems (scope : Scope) : (steps : Nat) → List Token → Option (Front (List Node))
  | 0, _ => none
  | steps + 1, .blockEntry :: rest => do
    let ends (t : Token) : Bool := t = .blockEntry || t = .key || t = .value || t = .blockEnd
    let (item, scope, rest) ← readUnless scope .block ends steps rest
    let (items, scope, rest) ← plainItems scope steps rest
    return (item :: items, scope, rest)
  | _ + 1, tokens => some ([], scope, tokens)

/-- Reads the entries of a block mapping. -/
def blockEntries (scope : Scope) : (steps : Nat) → List Token → Option (Front (List (Node × Node)))
  | 0, _ => none
  | steps + 1, .key :: rest => do
    let ends (t : Token) : Bool := t = .key || t = .value || t = .blockEnd
    let (key, scope, rest) ← readUnless scope .blockMember ends steps rest
    let (value, scope, rest) ←
      match rest with
      | .value :: rest => readUnless scope .blockMember ends steps rest
      | rest => some (.absent, scope, rest)
    let (entries, scope, rest) ← blockEntries scope steps rest
    return ((key, value) :: entries, scope, rest)
  | _ + 1, .blockEnd :: rest => some ([], scope, rest)
  | _ + 1, _ => none

/-- Reads the value after a key inside brackets or braces; there may be none. -/
def flowValue (scope : Scope) (ends : Token → Bool) :
    (steps : Nat) → List Token → Option (Front Node)
  | 0, _ => none
  | steps + 1, .value :: rest => readUnless scope .flow ends steps rest
  | _ + 1, tokens => some (.absent, scope, tokens)

/-- Reads the items of a list in brackets.  A key among them starts a mapping of one entry; a key
that is not there takes the token after it with it. -/
def flowItems (scope : Scope) (first : Bool) :
    (steps : Nat) → List Token → Option (Front (List Node))
  | 0, _ => none
  | steps + 1, tokens =>
    let afterComma : Option (List Token) :=
      match tokens, first with
      | .flowSequenceEnd :: _, _ | _, true => some tokens
      | .flowEntry :: rest, false => some rest
      | _, false => none
    match afterComma with
    | none => none
    | some (.flowSequenceEnd :: rest) => some ([], scope, rest)
    | some (.key :: rest) => do
      let ends (t : Token) : Bool := t = .flowEntry || t = .flowSequenceEnd
      let (key, scope, rest) ←
        match rest with
        | [] => none
        | token :: after =>
          if token = .value || ends token then some (.absent, scope, after)
          else readNode scope .flow steps rest
      let (value, scope, rest) ← flowValue scope ends steps rest
      let (items, scope, rest) ← flowItems scope false steps rest
      return (.mapping .none [(key, value)] :: items, scope, rest)
    | some tokens => do
      let (item, scope, rest) ← readNode scope .flow steps tokens
      let (items, scope, rest) ← flowItems scope false steps rest
      return (item :: items, scope, rest)

/-- Reads the entries of a mapping in braces. -/
def flowEntries (scope : Scope) (first : Bool) :
    (steps : Nat) → List Token → Option (Front (List (Node × Node)))
  | 0, _ => none
  | steps + 1, tokens =>
    let afterComma : Option (List Token) :=
      match tokens, first with
      | .flowMappingEnd :: _, _ | _, true => some tokens
      | .flowEntry :: rest, false => some rest
      | _, false => none
    let ends (t : Token) : Bool := t = .flowEntry || t = .flowMappingEnd
    match afterComma with
    | none => none
    | some (.flowMappingEnd :: rest) => some ([], scope, rest)
    | some (.key :: rest) => do
      let endsKey (t : Token) : Bool := t = .value || ends t
      let (key, scope, rest) ← readUnless scope .flow endsKey steps rest
      let (value, scope, rest) ← flowValue scope ends steps rest
      let (entries, scope, rest) ← flowEntries scope false steps rest
      return ((key, value) :: entries, scope, rest)
    | some tokens => do
      let (key, scope, rest) ← readNode scope .flow steps tokens
      let (entries, scope, rest) ← flowEntries scope false steps rest
      return ((key, .absent) :: entries, scope, rest)

end

/-! ## Documents -/

/-- The meanings that handles have without directives. -/
def standardHandles : List (List Char × List Char) :=
  [(['!'], ['!']), (['!', '!'], "tag:yaml.org,2002:".toList)]

/-- Reads the directives before a document: the meanings of handles, and the tokens after them.  The
version is given at most once and each handle at most once. -/
def readDirectives (versioned : Bool) (handles : List (List Char × List Char)) :
    List Token → Option (List (List Char × List Char) × List Token)
  | .version major minor :: rest =>
    if versioned || major != 1 || (minor != 1 && minor != 2) then none
    else readDirectives true handles rest
  | .tagHandle handle meaning :: rest =>
    if handles.any (·.1 == handle) then none
    else readDirectives versioned ((handle, meaning) :: handles) rest
  | tokens => some (handles, tokens)

/-- Whether nothing but ends of documents is left. -/
def isFinished (tokens : List Token) : Bool := tokens.all (· = .documentEnd)

/-- Reads the only document of a list of tokens; nothing inside stands for an empty stream. -/
def documentOf? (tokens : List Token) : Option (Option Node) := do
  match tokens with
  | [] => return none
  | _ =>
    let (handles, rest) ← readDirectives false [] tokens
    let scope : Scope := ⟨handles ++ standardHandles, []⟩
    let explicit := rest.length < tokens.length || rest.head? = some .documentStart
    let (node, rest) ←
      match explicit, rest with
      | true, .documentStart :: rest =>
        match rest with
        | [] | .documentEnd :: _ => some (Node.absent, rest)
        | _ => (readNode scope .block (3 * rest.length + 3) rest).map fun (n, _, r) => (n, r)
      | true, _ => none
      | false, rest =>
        (readNode scope .block (3 * rest.length + 3) rest).map fun (n, _, r) => (n, r)
    if isFinished rest then return some node else none

/-- Reads the only document of a text. -/
def document? (text : String) : Option (Option Node) := (tokens? text).bind documentOf?

end TypedClient.Yaml
