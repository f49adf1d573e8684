import AddonBundle.Cli.Arguments
import AddonBundle.Config.Load
/-!
# Invocations

The command that a command line asks for, with its options.
-/

namespace AddonBundle.Cli

open Text

/-- The options of a bundling command. -/
structure PullOptions where
  overrides : Config.Overrides := {}
  /-- Where the trace goes. -/
  tracePath : Option Location := none
deriving Repr, DecidableEq

/-- A command with its options. -/
inductive Invocation where
  | pull (options : PullOptions)
  | scan (path : Location)
deriving Repr, DecidableEq

/-- The options of the whole program. -/
def mainSwitches : List Switch :=
  helpSwitches ++ [⟨"--version".toList, false⟩]

/-- The options of the bundling command. -/
def pullSwitches : List Switch :=
  helpSwitches ++
    [⟨"--source".toList, true⟩, ⟨"--out".toList, true⟩, ⟨"--host".toList, true⟩,
      ⟨"--addons".toList, true⟩, ⟨"--clone".toList, true⟩, ⟨"--branch".toList, true⟩,
      ⟨"--no-clean".toList, false⟩, ⟨"--json-trace".toList, true⟩]

/-- The options with a value set. -/
def PullOptions.set (options : PullOptions) (name value : Text) : PullOptions :=
  let o := options.overrides
  if name = "--source".toList then
    { options with overrides := { o with source := some (.ofText value) } }
  else if name = "--out".toList then
    { options with overrides := { o with output := some (.ofText value) } }
  else if name = "--host".toList then
    { options with overrides := { o with host := some (.ofText value) } }
  else if name = "--addons".toList then
    { options with overrides := { o with addonsFile := some (.ofText value) } }
  else if name = "--clone".toList then
    { options with overrides := { o with cloneUrl := some value } }
  else if name = "--branch".toList then
    { options with overrides := { o with cloneBranch := some value } }
  else { options with tracePath := some (.ofText value) }

/-- Reads the words of a bundling command. `extra` says whether a word without a meaning came
before, which counts only when all words are read, and `awaiting` is the option whose value comes
next. -/
def pullFrom (extra : Bool) (awaiting : Option Text) (options : PullOptions) :
    List Text → Except Stop PullOptions
  | [] => if extra || awaiting.isSome then .error .usage else .ok options
  | word :: rest =>
    match awaiting with
    | some name =>
      if word ≠ divider && classify pullSwitches word = .plain then
        pullFrom extra none (options.set name word) rest
      else .error .usage
    | none =>
      if word = divider then .error .usage
      else
        match classify pullSwitches word with
        | .ambiguous => .error .usage
        | .plain | .unknown => pullFrom true none options rest
        | .known s value =>
          if s.isHelp then .error (stopAt word)
          else if s.takesValue then
            match value with
            | some value => pullFrom extra none (options.set s.name value) rest
            | none => pullFrom extra (some s.name) options rest
          else if value.isSome then .error .usage
          else
            pullFrom extra none
              { options with overrides := { options.overrides with clean := some false } } rest

/-- The first request for help among words before the divider. -/
def helpAmong : List Text → Option Stop
  | [] => none
  | word :: rest =>
    if word = divider then none
    else
      match classify helpSwitches word with
      | .known _ _ => some (stopAt word)
      | _ => helpAmong rest

/-- Reads the words of a scanning command: one path, which a divider may stand before or behind. -/
def scanFrom (words : List Text) : Except Stop Location :=
  if hasAmbiguous helpSwitches words then .error .usage
  else
    match helpAmong words with
    | some stop => .error stop
    | none =>
      match words with
      | [path] =>
        if path ≠ divider && classify helpSwitches path = .plain then .ok (.ofText path)
        else .error .usage
      | [first, second] =>
        if first = divider then .ok (.ofText second)
        else if second = divider && classify helpSwitches first = .plain then .ok (.ofText first)
        else .error .usage
      | _ => .error .usage

/-- Reads a command and its words. -/
def commandFrom (command : Text) (words : List Text) : Except Stop Invocation :=
  if command = "pull".toList then
    if hasAmbiguous pullSwitches words then .error .usage
    else .pull <$> pullFrom false none {} words
  else if command = "scan".toList then .scan <$> scanFrom words
  else .error .usage

/-- Reads the words up to the command, which is the first that is no option. -/
def mainFrom (extra : Bool) : List Text → Except Stop Invocation
  | [] => .error .usage
  | word :: rest =>
    match classify mainSwitches word with
    | .plain =>
      match commandFrom word rest with
      | .error stop => .error stop
      | .ok invocation => if extra then .error .usage else .ok invocation
    | .known s value =>
      if s.isHelp then .error (stopAt word)
      else if value.isSome then .error .usage
      else .error .version
    | .unknown | .ambiguous => if word = divider then .error .usage else mainFrom true rest

/-- Reads a command line. -/
def read (words : List Text) : Except Stop Invocation :=
  if hasAmbiguous mainSwitches words then .error .usage else mainFrom false words

end AddonBundle.Cli
