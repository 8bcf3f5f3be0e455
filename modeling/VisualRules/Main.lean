import VisualRules.Program

/-!
# Command line

Runs the program on the machine it is started on.
-/

open VisualRules

/-- What the operating system says of a failed call. -/
def systemMessage : IO.Error → String
  | .noFileOrDirectory .. => "No such file or directory (os error 2)"
  | .permissionDenied .. => "Permission denied (os error 13)"
  | .alreadyExists .. => "File exists (os error 17)"
  | .inappropriateType _ 21 _ => "Is a directory (os error 21)"
  | .inappropriateType .. => "Not a directory (os error 20)"
  | e => toString e

/-- Does something and gives its failure as a value. -/
def attempt {α : Type} (act : IO α) : IO (Except String α) := do
  try return .ok (← act) catch e => return .error (systemMessage e)

/-- Whether a path can be found. -/
def isThere (path : String) : IO Bool := do
  try
    discard <| IO.FS.realPath path
    return true
  catch _ => return false

/-- The machine that the program runs on. -/
def thisMachine : Program.Machine IO where
  lookupEnv := fun name => IO.getEnv name
  isThere := isThere
  readText := fun path => attempt (IO.FS.readFile path)
  makeDirectory := fun path => attempt (IO.FS.createDirAll path)
  listen := fun _ _ => return .ok ()

def main (words : List String) : IO UInt32 := do
  let outcome ← Program.run thisMachine words
  (← IO.getStdout).putStr outcome.output
  (← IO.getStderr).putStr outcome.complaint
  return .ofNat outcome.code
