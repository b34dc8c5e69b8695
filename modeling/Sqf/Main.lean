import Sqf.CommandLine.Outcome

/-!
# The program

Reads the files that its arguments name, prints what the checks have found and
exits with the code of the outcome.
-/

namespace Sqf.CommandLine

/-- The text of the file at a path, or nothing if it cannot be read. -/
def readIfPossible (path : String) : IO (Option String) := do
  match ← (IO.FS.readFile path).toBaseIO with
  | .ok text => return some text
  | .error _ => return none

/-- Reads what the arguments name, and gives the outcome of the invocation. -/
def invoke (arguments : List String) : IO Outcome := do
  let paths := match Options.read arguments with
    | .ok options => options.paths
    | .error _ => []
  let texts ← paths.mapM fun path => return (path, ← readIfPossible path)
  return outcome arguments fun path => (texts.lookup path).join

end Sqf.CommandLine

/-- Checks the files that the arguments name. -/
def main (arguments : List String) : IO UInt32 := do
  let outcome ← Sqf.CommandLine.invoke arguments
  IO.print outcome.printed
  match outcome.complaint with
  | some complaint => IO.eprintln ("error: " ++ complaint)
  | none => pure ()
  return outcome.exitCode.toUInt32
