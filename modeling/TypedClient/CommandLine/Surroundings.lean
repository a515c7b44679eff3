import TypedClient.Client.Headers
import TypedClient.Text.Split
import TypedClient.Text.Utf8

/-!
# What a run sees

A run of the program reads and writes files and may download a schema.  `Surroundings` lists these
actions for any monad, so that the same run can be carried out on a real disk and on a value.

* `Folder` is a directory held as a value, with all that is in it;
* `Folder.read`, `Folder.makeDirectory` and `Folder.write` act on it, with the errors of a disk;
* `Folder.surroundings` are these actions together.
-/

set_option autoImplicit false

namespace TypedClient.CommandLine

open TypedClient.Client TypedClient.Text

/-- What a run can do to the outside. -/
structure Surroundings (m : Type → Type) where
  /-- The text of a file, or why it cannot be read. -/
  read : String → m (Except String String)
  /-- Makes a directory and those above it, where they are missing. -/
  makeDirectory : String → m (Except String Unit)
  /-- Writes a text to a file, in place of what was there. -/
  write : (path text : String) → m (Except String Unit)
  /-- The text at an address, asked for with the given headers. -/
  download : String → Headers → m (Except String String)

/-! ## Errors of a disk -/

/-- Why something cannot be done with a path. -/
inductive DiskError where
  /-- There is nothing of that name. -/
  | missing
  /-- There is something of that name already. -/
  | taken
  /-- A file stands where a directory has to. -/
  | notDirectory
  /-- A directory stands where a file has to. -/
  | isDirectory
  /-- A name is too long. -/
  | tooLong
  /-- A name has a null character in it. -/
  | nullCharacter
  deriving DecidableEq

/-- The wording of an error. -/
def DiskError.message : DiskError → String
  | missing => "No such file or directory (os error 2)"
  | taken => "File exists (os error 17)"
  | notDirectory => "Not a directory (os error 20)"
  | isDirectory => "Is a directory (os error 21)"
  | tooLong => "File name too long (os error 36)"
  | nullCharacter => "file name contained an unexpected NUL byte"

/-! ## A directory as a value -/

/-- A place in a directory: the names that lead there. -/
abbrev Place := List String

/-- A directory with all that is in it. -/
structure Folder where
  /-- The texts of the files. -/
  files : List (Place × String)
  /-- The directories in it. -/
  directories : List Place
  deriving Inhabited

namespace Folder

/-- The text of a file. -/
def text? (f : Folder) (place : Place) : Option String := f.files.lookup place

/-- Whether there is a directory at a place.  What has a file in it is one. -/
def hasDirectory (f : Folder) (place : Place) : Bool :=
  place.isEmpty || f.directories.contains place ||
    f.files.any fun file => place.isPrefixOf file.1 && place != file.1

/-- Puts a file in place. -/
def put (f : Folder) (place : Place) (text : String) : Folder :=
  { f with files := f.files.filter (·.1 != place) ++ [(place, text)] }

/-- The names of a path. -/
def namesOf (path : String) : List String := (splitOn '/' path.toList).map String.ofList

/-- The folder of files whose paths are given. -/
def ofFiles (files : List (String × String)) : Folder :=
  files.foldl (fun f (path, text) => f.put (namesOf path) text) ⟨[], []⟩

/-- Whether a name stands for the place it is found in. -/
def isHere (name : String) : Bool := name.isEmpty || name == "."

/-- Follows names from a place.  Every name but the last has to lead to a directory; nothing outside
the folder is seen. -/
def follow (f : Folder) (here : Place) : List String → Except DiskError Place
  | [] => .ok here
  | name :: rest =>
    if isHere name then follow f here rest
    else if name == ".." then if here.isEmpty then .error .missing else follow f here.dropLast rest
    else if 255 < (encodeUtf8 name).length then .error .tooLong
    else if rest.isEmpty then .ok (here ++ [name])
    else if f.hasDirectory (here ++ [name]) then follow f (here ++ [name]) rest
    else if (f.text? (here ++ [name])).isSome then .error .notDirectory
    else .error .missing

/-- The place that a path leads to. -/
def locate (f : Folder) (path : String) : Except DiskError Place :=
  if path.toList.contains '\x00' then .error .nullCharacter
  else if path.isEmpty || path.startsWith "/" then .error .missing
  else f.follow [] (namesOf path)

/-- Reads a file. -/
def read (f : Folder) (path : String) : Except DiskError String := do
  let place ← f.locate path
  if f.hasDirectory place then throw .isDirectory
  match f.text? place with
  | some text => return text
  | none => throw .missing

/-- Follows names from a place and makes the directories that are missing. -/
def extend (f : Folder) (here : Place) : List String → Except DiskError Folder
  | [] => .ok f
  | name :: rest =>
    if isHere name then extend f here rest
    else if name == ".." then if here.isEmpty then .error .missing else extend f here.dropLast rest
    else if 255 < (encodeUtf8 name).length then .error .tooLong
    else
      let next := here ++ [name]
      if f.hasDirectory next then extend f next rest
      else if (f.text? next).isSome then
        .error (if rest.all isHere then .taken else .notDirectory)
      else extend { f with directories := f.directories ++ [next] } next rest

/-- Makes a directory and those above it, where they are missing. -/
def makeDirectory (f : Folder) (path : String) : Except DiskError Folder :=
  if path.toList.contains '\x00' then .error .nullCharacter
  else if path.startsWith "/" then .error .missing
  else f.extend [] (namesOf path)

/-- Writes a file. -/
def write (f : Folder) (path text : String) : Except DiskError Folder := do
  let place ← f.locate path
  if f.hasDirectory place then throw .isDirectory
  return f.put place text

/-- An action that may change the folder. -/
def change (action : Folder → Except DiskError Folder) : StateM Folder (Except String Unit) :=
  fun f =>
    match action f with
    | .ok f => (.ok (), f)
    | .error e => (.error e.message, f)

/-- The actions on a folder.  There is nothing to download from. -/
def surroundings : Surroundings (StateM Folder) where
  read path f := ((f.read path).mapError DiskError.message, f)
  makeDirectory path := change (·.makeDirectory path)
  write path text := change (·.write path text)
  download _ _ := pure (.error "there is no network")

end Folder

end TypedClient.CommandLine
