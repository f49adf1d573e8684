import AddonBundle.Cli.Workspace
import AddonBundle.Json.Reader
/-!
# The command line

Reads a snapshot from the standard input, carries out the command line there, tells the user about
it on the standard error, and writes the changes to the standard output.
-/

namespace AddonBundle

/-- The rest of a stream behind what has been read of it. -/
partial def readAll (input : IO.FS.Stream) (before : String) : IO String := do
  let line ← input.getLine
  if line.isEmpty then return before else readAll input (before ++ line)

/-- Carries out a command line on a snapshot; gives the exit code. -/
def runOn (snapshot : Json.Value) (words : List String) : IO UInt32 := do
  let (printed, told, code) :=
    Cli.perform (Cli.Workspace.ofSnapshot snapshot) (words.map String.toList)
  told.forM fun line => do (← IO.getStderr).putStrLn (String.ofList line)
  (← IO.getStdout).putStr (String.ofList printed)
  return UInt32.ofNat code

end AddonBundle

/-- Carries out a command line on the snapshot that stands on the standard input. -/
def main (words : List String) : IO UInt32 := do
  let input ← AddonBundle.readAll (← IO.getStdin) ""
  match AddonBundle.Json.read input.toList with
  | .ok snapshot => AddonBundle.runOn snapshot words
  | .error error =>
    (← IO.getStderr).putStrLn (String.ofList (error.message input.toList))
    return 2
