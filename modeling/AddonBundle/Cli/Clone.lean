import AddonBundle.Cli.Command
/-!
# Cloning

The collection may be cloned anew before it is bundled. Another program does that; what it does is
given from outside, so that a command is a function of it.
-/

namespace AddonBundle.Cli

open Text

/-- What the cloning program does when it is started. -/
inductive CloneOutcome where
  /-- Makes a directory with files, unless there are none. -/
  | created (files : List (Text × Bytes))
  /-- Ends with an exit code after writing to its error output. -/
  | failed (stderr : Text) (code : Int)
  /-- Cannot be started. -/
  | refused (reason : Text)
deriving Repr, DecidableEq

/-- The command line of the cloning program. -/
def cloneCommand (url : Text) (branch : Option Text) (target : Location) : List Text :=
  let branchWords :=
    match branch with
    | some (c :: cs) => ["-b".toList, c :: cs]
    | _ => []
  ["git".toList, "clone".toList, "--depth=1".toList] ++ branchWords ++ [url, target.text]

/-- The names of the signals that end a program, by number. -/
def signalNames : List (Nat × Text) :=
  [(1, "HUP".toList), (2, "INT".toList), (3, "QUIT".toList), (4, "ILL".toList),
    (5, "TRAP".toList), (6, "ABRT".toList), (7, "BUS".toList), (8, "FPE".toList),
    (9, "KILL".toList), (10, "USR1".toList), (11, "SEGV".toList), (12, "USR2".toList),
    (13, "PIPE".toList), (14, "ALRM".toList), (15, "TERM".toList), (16, "STKFLT".toList),
    (17, "CHLD".toList), (18, "CONT".toList), (19, "STOP".toList), (20, "TSTP".toList),
    (21, "TTIN".toList), (22, "TTOU".toList), (23, "URG".toList), (24, "XCPU".toList),
    (25, "XFSZ".toList), (26, "VTALRM".toList), (27, "PROF".toList), (28, "WINCH".toList),
    (29, "IO".toList), (30, "PWR".toList), (31, "SYS".toList), (34, "RTMIN".toList),
    (64, "RTMAX".toList)]

/-- How a program ended that failed. A negative exit code is the number of a signal. -/
def endText (code : Int) : Text :=
  match code with
  | .ofNat n => "returned non-zero exit status ".toList ++ ofNat n
  | .negSucc n =>
    let number := ofNat (n + 1)
    match signalNames.find? fun entry => entry.1 = n + 1 with
    | some (_, name) =>
      "died with <Signals.SIG".toList ++ name ++ ": ".toList ++ number ++ ['>']
    | none => "died with unknown signal ".toList ++ number

/-- What is told about a program that failed: its error output, if there is any. -/
def failureDetail (command : List Text) (stderr : Text) (code : Int) : Text :=
  if stderr.isEmpty then
    "Command '".toList ++ quotedList command ++ "' ".toList ++ endText code ++ ['.']
  else stderr

/-- How a location is shown in a refusal to open it as a directory. -/
def shownLocation (l : Location) : Text :=
  "PosixPath(".toList ++ quoted l.text ++ [')']

/-- A working directory that lies at a place or below it, once only so many of its levels are left;
any other stays as it is. -/
def strand (place : List Text) (left : Nat) (cwd : List Text) : List Text :=
  if (Disk.below? place cwd).isSome then
    cwd.take left ++ List.replicate (cwd.length - left) []
  else cwd

/-- Why an empty directory cannot be removed by its location, if it cannot. Its own directory must
be found again, and the name there must be its own. -/
def emptyDirRefusal (cwd : List Text) (disk : Disk) (target : Location) : Option Refusal :=
  match target.parts.getLast? with
  | none => some (Disk.refusal target .invalidArgument)
  | some name =>
    match disk.lookup cwd target.parent with
    | .error kind => some (Disk.refusal target kind)
    | .ok _ => if name = "..".toList then some (Disk.refusal target .notEmpty) else none

/-- Removes the directory at a location, if there is one: first what is in it, then the directory.
Gives the working directory that is left, or why the removal broke off; a file is refused. -/
def clearTarget (cwd : List Text) (disk : Disk) (target : Location) :
    Except Refusal (List Text) × Disk :=
  match disk.find? cwd target with
  | .error refusal => (.error refusal, disk)
  | .ok none => (.ok cwd, disk)
  | .ok (some (_, .file _)) => (.error ⟨.notDirectory, shownLocation target⟩, disk)
  | .ok (some (place, .directory)) =>
    let emptied :=
      (disk.namesIn place).foldl (fun disk name => disk.removeAt (place ++ [name])) disk
    match emptyDirRefusal (strand place place.length cwd) emptied target with
    | some refusal => (.error refusal, emptied)
    | none => (.ok (strand place (place.length - 1) cwd), emptied.removeAt place)

/-- Writes files below a location one after the other, up to the first that is refused. -/
def writeAll (cwd : List Text) (target : Location) :
    Disk → List (Text × Bytes) → Except Refusal Unit × Disk
  | disk, [] => (.ok (), disk)
  | disk, (path, bytes) :: rest =>
    match disk.writeFile cwd (target.append (.ofText path)) bytes with
    | (.error refusal, disk) => (.error refusal, disk)
    | (.ok _, disk) => writeAll cwd target disk rest

/-- The wording of a failure to clone; what is no refusal of the file system breaks off. -/
def refusalDetail (refusal : Refusal) : Command Text :=
  if (Failure.refused refusal).isRefusal then return refusal.message
  else throw (.failure (.refused refusal))

/-- Clones a collection into a location. Gives the working directory, which may have been removed on
the way, or what went wrong. -/
def cloneInto (cwd : List Text) (start : List Text → CloneOutcome) (url : Text)
    (branch : Option Text) (target : Location) : Command (Except Text (List Text)) := do
  let disk ← Command.disk
  let here := (disk.place cwd {}).toOption.getD cwd
  let (cleared, disk) := clearTarget here disk target
  Command.setDisk disk
  match cleared with
  | .error refusal => return .error (← refusalDetail refusal)
  | .ok here =>
    let command := cloneCommand url branch target
    Command.log .info ("Cloning ".toList ++ Log.path url ++ " into ".toList ++ Log.path target.text)
    modify fun p => { p with started := p.started ++ [command] }
    match start command with
    | .refused reason => return .error reason
    | .failed stderr code => return .error (failureDetail command stderr code)
    | .created files =>
      let (written, disk) := writeAll here target disk files
      Command.setDisk disk
      match written with
      | .error refusal => return .error (← refusalDetail refusal)
      | .ok _ => return .ok here

end AddonBundle.Cli
