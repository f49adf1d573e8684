import AddonBundle.Cli.Program
import AddonBundle.Console
import AddonBundle.Json.Printer
import AddonBundle.Snapshot
/-!
# Workspaces

A workspace is a disk and a working directory on it. It is read from a snapshot: an object with the
`files` and `dirs` of the disk and with the working directory as `cwd`. A command line carried out
on a workspace gives what is printed, what the user is told, and an exit code. Other programs cannot
be started on a workspace, so that cloning is always refused.
-/

namespace AddonBundle.Cli

open Text

/-- The items of a member that is an array; none when it is missing. -/
def itemsOf (value : Json.Value) (name : Text) : List Json.Value :=
  match value.get? name with
  | some (.array items) => items
  | _ => []

/-- The text of a value that is a string. -/
def textOf? : Json.Value → Option Text
  | .string s => some (CodePoint.toText s)
  | _ => none

/-- A disk and the working directory on it. -/
structure Workspace where
  disk : Disk := {}
  cwd : List Text := []
deriving Repr, DecidableEq

/-- The workspace of a snapshot. The working directory is there, whatever else is. -/
def Workspace.ofSnapshot (snapshot : Json.Value) : Workspace :=
  let cwd := ((snapshot.get? "cwd".toList).bind textOf?).getD []
  let dirs := (itemsOf snapshot "dirs".toList).filterMap textOf?
  let files := (itemsOf snapshot "files".toList).filterMap Snapshot.file?
  { disk := Snapshot.populate [] (dirs ++ [cwd]) files {}, cwd := (Location.ofText cwd).parts }

/-- What is told about cloning. -/
def cloneRefusal : Text := "no other program can be started on a snapshot".toList

/-- A table line by line: its title, its columns and its rows, with a tabulator between cells. -/
def Table.lines (table : Table) : List Text :=
  plain table.title :: (table.columns :: table.rows).map fun cells => join ['\t'] (cells.map plain)

/-- What the user is told about a command: its messages, its tables, and a failure that it did not
expect. -/
def told (outcome : Except Crash Nat) (progress : Progress) : List Text :=
  progress.log.flatMap Console.entryLines ++ progress.tables.flatMap Table.lines ++
    match outcome with
    | .ok _ => []
    | .error crash => ["Unexpected failure: ".toList ++ crash.message]

/-- The changes that a command made, as JSON. -/
def changesOf (before : Disk) (progress : Progress) : Json.Value :=
  let changes := Snapshot.changes [] before progress.disk
  .object
    [(CodePoint.ofText "written".toList, Snapshot.files changes.written),
      (CodePoint.ofText "deleted".toList, .array (changes.deleted.map .ofText))]

/-- The exit code; a failure that the command did not expect counts as any other. -/
def exitCode : Except Crash Nat → Nat
  | .ok code => code
  | .error _ => 1

/-- What a command line does on a workspace: what is printed, what the user is told, and the exit
code. Nothing but the version is printed when that was asked for. -/
def perform (workspace : Workspace) (words : List Text) : Text × List Text × Nat :=
  let (outcome, progress) :=
    (program workspace.cwd (fun _ => .refused cloneRefusal) words).exec workspace.disk
  let printed :=
    if progress.printed.isEmpty then
      Json.ascii (changesOf workspace.disk progress) ++ ['\n']
    else progress.printed
  (printed, told outcome progress, exitCode outcome)

end AddonBundle.Cli
