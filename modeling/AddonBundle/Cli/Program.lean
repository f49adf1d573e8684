import AddonBundle.Cli.Pull
import AddonBundle.Cli.Scan
/-!
# The program

What a command line does: the exit code and everything that was done on the way.
-/

namespace AddonBundle.Cli

/-- What the program prints about its version. -/
def versionLine : Text := "addon-porter 0.1.0\n".toList

/-- Carries out a command line in a working directory. `start` is what the cloning program does. -/
def program (cwd : List Text) (start : List Text → CloneOutcome) (words : List Text) :
    Command Nat :=
  match read words with
  | .error .usage => return 2
  | .error .help => return 0
  | .error .version => do
    modify fun p => { p with printed := p.printed ++ versionLine }
    return 0
  | .ok (.pull options) => pull cwd start options
  | .ok (.scan path) => scan cwd path

end AddonBundle.Cli
