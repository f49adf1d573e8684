import AddonBundle.Bundle.OnDisk
import AddonBundle.Cli.Clone
import AddonBundle.Cli.Invocation
/-!
# Bundling from the command line

Loads the configuration, clones the collection if a place to clone from is configured, bundles it,
writes the trace if asked to, and prints a summary.
-/

namespace AddonBundle.Cli

open Text

/-- The configuration; settings that do not fit and a document that is no text are told to the
user, and nothing is given. -/
def loadConfig (cwd : List Text) (overrides : Config.Overrides) : Command (Option Config) := do
  let (warnings, outcome) := Config.load cwd (← Command.disk) {} overrides
  modify fun p => { p with log := p.log ++ warnings }
  match outcome with
  | .ok config => return some config
  | .error failure =>
    match failure with
    | .invalid _ | .undecodable _ | .nullCharacter | .limit (.digits _) =>
      Command.log .error ("Invalid configuration: ".toList ++ escapeMarkup failure.message)
      return none
    | _ => throw (.config failure)

/-- Clones the collection if a place to clone from is configured. Gives the working directory behind
that, unless something went wrong. -/
def cloneSource (cwd : List Text) (start : List Text → CloneOutcome) (config : Config) :
    Command (Option (List Text)) := do
  match config.cloneUrl with
  | some (c :: cs) =>
    match ← cloneInto cwd start (c :: cs) config.cloneBranch config.source with
    | .ok here => return some here
    | .error detail =>
      Command.log .error ("Clone failed: ".toList ++ escapeMarkup (trim detail))
      return none
  | _ => return some cwd

/-- Bundles as configured; a failure that the user can mend is told, and nothing is given. -/
def bundle (cwd : List Text) (config : Config) : Command (Option Bundle.Report) := do
  let (outcome, session) := Bundle.runConfigured cwd config (← Command.disk)
  Command.setDisk session.storage
  modify fun p => { p with log := p.log ++ session.log }
  match outcome with
  | .ok report => return some report
  | .error (.fault fault) =>
    Command.log .error (escapeMarkup fault.message)
    return none
  | .error failure =>
    if failure.isRefusal then
      Command.log .error ("I/O failure: ".toList ++ escapeMarkup failure.message)
      return none
    else throw (.failure failure)

/-- Writes a trace to a file. -/
def writeTrace (cwd : List Text) (path : Location) (trace : Trace) : Command Unit := do
  let bytes := Utf8.encode (Json.indented 0 trace.toJson)
  let (made, disk) := Disk.makeDirs cwd (← Command.disk) path.parent
  Command.setDisk disk
  Command.ofExcept made
  Command.setDisk (← Command.ofExcept (disk.writeBytes cwd path bytes))
  Command.log .info ("Trace saved to ".toList ++ Log.path path.text)

/-- The summary of a run. -/
def summaryTable (report : Bundle.Report) : Table :=
  let scripts := (report.written.filter fun path => ".js".toList.isSuffixOf path).length
  { title := "Upstream ".toList ++ CodePoint.toText report.version
    columns := ["Output".toList, "Count".toList]
    rows :=
      [["Files written".toList, ofNat report.written.length], ["Scripts".toList, ofNat scripts],
        ["Libraries".toList, ofNat report.libraries.length],
        ["Fixed rules".toList, ofNat report.sheet.rules.length],
        ["Languages".toList, ofNat report.languages.length]] }

/-- Bundles a collection. -/
def pull (cwd : List Text) (start : List Text → CloneOutcome) (options : PullOptions) :
    Command Nat := do
  match ← loadConfig cwd options.overrides with
  | none => return 1
  | some config =>
    match ← cloneSource cwd start config with
    | none => return 1
    | some cwd =>
      if !(← Command.ofExcept ((← Command.disk).isDir cwd config.source)) then
        Command.fail ("Upstream checkout not found: ".toList ++
          Log.path (escapeMarkup config.source.text))
      else
        match ← bundle cwd config with
        | none => return 1
        | some report =>
          if let some path := options.tracePath then writeTrace cwd path report.trace
          Command.printTable (summaryTable report)
          return 0

end AddonBundle.Cli
