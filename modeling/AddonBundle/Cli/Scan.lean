import AddonBundle.Cli.Command
import AddonBundle.Script.Idioms
import AddonBundle.Text.Lines
/-!
# Scanning

Reports the idioms of a script, or of all scripts below a directory, without writing anything.
-/

namespace AddonBundle.Cli

open Text

/-- Whether the first parts come before the second or are the same. -/
def partsLe (a b : List Text) : Bool :=
  !decide (b < a)

/-- The entries below a place whose names are those of scripts, by their parts seen from there, in
order of their parts. -/
def scriptsBelow (disk : Disk) (place : List Text) : List (List Text) :=
  ((disk.filesBelow place ++ disk.dirsBelow place).filter fun parts =>
    parts.getLast?.any fun name => ".js".toList.isSuffixOf name).mergeSort partsLe

/-- The text of a script, with uniform line ends. -/
def readScript (cwd : List Text) (disk : Disk) (l : Location) : Except Failure Text :=
  match disk.readBytes cwd l with
  | .error refusal => .error (.refused refusal)
  | .ok bytes =>
    match Utf8.decode bytes with
    | .error e => .error (.undecodable e)
    | .ok text => .ok (uniformLines text)

/-- The row of a script. -/
def idiomsRow (name : Text) (found : Script.Idioms) : List Text :=
  let cell := fun texts => escapeMarkup (join ", ".toList texts)
  [name, cell found.libraries, cell found.loads, cell found.markers, ofNat found.paths.length]

/-- The columns of the report. -/
def idiomsColumns : List Text :=
  ["File".toList, "Libraries".toList, "Dynamic Loads".toList, "Class Markers".toList,
    "Dynamic Paths".toList]

/-- A script to scan: the name it is reported by, and its location. -/
structure ScanEntry where
  name : Text
  location : Location
deriving Repr, DecidableEq

/-- The rows of scripts, or what to tell the user about the first that cannot be scanned. -/
def scanRows (cwd : List Text) (disk : Disk) : List ScanEntry → Except Text (List (List Text))
  | [] => .ok []
  | entry :: rest =>
    match readScript cwd disk entry.location with
    | .error failure =>
      .error ("Cannot read ".toList ++ Log.path (escapeMarkup entry.name) ++ ": ".toList ++
        escapeMarkup failure.message)
    | .ok text =>
      match Script.idioms text with
      | .error token =>
        .error (escapeMarkup (Fault.markerMalformed token (some entry.name) none).message)
      | .ok found =>
        (if found.isEmpty then id else (idiomsRow entry.name found :: ·)) <$>
          scanRows cwd disk rest

/-- The scripts at a location that leads to an entry: the file itself, or those below a
directory. -/
def scanEntries (disk : Disk) (path : Location) (found : List Text × Disk.Node) : List ScanEntry :=
  match found with
  | (_, .file _) => [⟨path.name, path⟩]
  | (place, .directory) =>
    (scriptsBelow disk place).map fun parts => ⟨join ['/'] parts, path.append ⟨0, parts⟩⟩

/-- Scans a location. -/
def scan (cwd : List Text) (path : Location) : Command Nat := do
  let disk ← Command.disk
  match ← Command.ofExcept (disk.find? cwd path) with
  | none => Command.fail ("Input not found: ".toList ++ path.text)
  | some found =>
    let entries := scanEntries disk path found
    if entries.isEmpty then
      Command.log .warning ("No .js files found in ".toList ++ path.text)
      return 0
    else
      Command.log .info ("Scanning ".toList ++ ofNat entries.length ++ " scripts from ".toList ++
        path.text ++ "...".toList)
      match scanRows cwd disk entries with
      | .error message => Command.fail message
      | .ok rows =>
        Command.printTable ⟨"Addon Idioms".toList, idiomsColumns, rows⟩
        return 0

end AddonBundle.Cli
