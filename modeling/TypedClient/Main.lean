import TypedClient.CommandLine.Run

/-!
# The program

Carries out the command line on the files of the computer.
-/

set_option autoImplicit false

namespace TypedClient.CommandLine

/-- The wording of an error of the computer. -/
def wording : IO.Error → String
  | .noFileOrDirectory _ code text | .alreadyExists _ code text | .inappropriateType _ code text
  | .permissionDenied _ code text | .invalidArgument _ code text
  | .resourceExhausted _ code text | .noSuchThing _ code text | .otherError code text =>
    text ++ " (os error " ++ toString code ++ ")"
  | e => toString e

/-- The outcome of an action on the computer. -/
def attempt {α : Type} (action : IO α) : IO (Except String α) := do
  match ← action.toBaseIO with
  | .ok value => return .ok value
  | .error e => return .error (wording e)

/-- The files of the computer.  Schemas are not downloaded. -/
def computer : Surroundings IO where
  read path := attempt (IO.FS.readFile path)
  makeDirectory path := attempt (IO.FS.createDirAll path)
  write path text := attempt (IO.FS.writeFile path text)
  download _ _ := pure (.error "schemas are not downloaded")

end TypedClient.CommandLine

open TypedClient.CommandLine in
/-- Carries out the command line. -/
def main (words : List String) : IO UInt32 := do
  let report ← run computer words
  IO.print report.output
  IO.eprint report.complaint
  return report.exitCode.toUInt32
