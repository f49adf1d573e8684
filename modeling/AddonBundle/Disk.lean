import AddonBundle.Fault
import AddonBundle.Location
/-!
# Disks

A disk is a set of directories and a map of files, both by their parts from the root. Names are
followed part by part, as a file system does it, so that `..` needs the directory before it and
nothing lies below a file. Operations answer with the refusals of a file system.

A program may go on working in a directory that has been removed. Such a directory is a place whose
last part is empty: nothing is in it and nothing can be made in it, but `..` leads out of it.
-/

namespace AddonBundle

/-- Directories and files by their parts from the root, which is always there. -/
structure Disk where
  dirs : List (List Text) := []
  files : List (List Text × Bytes) := []
deriving Repr, DecidableEq

namespace Disk

/-- An entry of a disk. -/
inductive Node where
  | directory
  | file (bytes : Bytes)
deriving Repr, DecidableEq

/-- How many bytes the name of an entry may have. -/
def maxName : Nat := 255

/-- How many bytes a path may have. -/
def maxPath : Nat := 4095

/-- The number of bytes of a text. -/
def byteLength (text : Text) : Nat :=
  text.foldl (fun size c => size + c.utf8Size) 0

/-- Whether a place is a directory that has been removed. -/
def isRemoved (place : List Text) : Bool :=
  place.getLast? = some []

/-- The entry with the given parts, none of which is `..`. -/
def node? (disk : Disk) (place : List Text) : Option Node :=
  if place.isEmpty || isRemoved place || disk.dirs.contains place then some .directory
  else (disk.files.find? fun f => f.1 == place).map fun f => .file f.2

/-- Follows parts from a place that has been reached; the places are held last part first. The
last part need not be there. In a directory that has been removed no name is too long, since none is
looked for. -/
def follow (disk : Disk) (reached : List Text) : List Text → Except Refusal.Kind (List Text)
  | [] => .ok reached
  | part :: rest =>
    match disk.node? reached.reverse with
    | some .directory =>
      if part = "..".toList then follow disk reached.tail rest
      else if maxName < byteLength part && reached.head? != some [] then .error .nameTooLong
      else follow disk (part :: reached) rest
    | some (.file _) => .error .notDirectory
    | none => .error .missing

/-- The place that a location leads to: its parts without `..`. The working directory gives a
relative location its meaning. -/
def place (disk : Disk) (cwd : List Text) (l : Location) : Except Refusal.Kind (List Text) :=
  if l.text.contains '\x00' then .error .nullCharacter
  else if maxPath < byteLength l.text then .error .nameTooLong
  else List.reverse <$> disk.follow [] (l.absolute cwd)

/-- The entry that a location leads to, with its place. -/
def lookup (disk : Disk) (cwd : List Text) (l : Location) :
    Except Refusal.Kind (List Text × Node) := do
  let place ← disk.place cwd l
  match disk.node? place with
  | some node => .ok (place, node)
  | none => .error .missing

/-- A refusal that concerns a location. -/
def refusal (l : Location) (kind : Refusal.Kind) : Refusal :=
  ⟨kind, Text.quoted l.text⟩

/-- The entry that a location leads to with its place, if it leads to one. A name that is too long
is refused even when it is only asked about. -/
def find? (disk : Disk) (cwd : List Text) (l : Location) :
    Except Refusal (Option (List Text × Node)) :=
  match disk.lookup cwd l with
  | .ok found => .ok (some found)
  | .error .nameTooLong => .error (refusal l .nameTooLong)
  | .error _ => .ok none

/-- Whether a location leads to an entry. -/
def present (disk : Disk) (cwd : List Text) (l : Location) : Except Refusal Bool :=
  Option.isSome <$> disk.find? cwd l

/-- The place of the directory that a location leads to, if it leads to one. -/
def dir? (disk : Disk) (cwd : List Text) (l : Location) : Except Refusal (Option (List Text)) := do
  match ← disk.find? cwd l with
  | some (place, .directory) => return some place
  | _ => return none

/-- Whether a location leads to a directory. -/
def isDir (disk : Disk) (cwd : List Text) (l : Location) : Except Refusal Bool :=
  Option.isSome <$> disk.dir? cwd l

/-- Whether a location leads to a file. -/
def isFile (disk : Disk) (cwd : List Text) (l : Location) : Except Refusal Bool := do
  match ← disk.find? cwd l with
  | some (_, .file _) => return true
  | _ => return false

/-- What follows a place in a longer one. -/
def below? : List Text → List Text → Option (List Text)
  | [], rest => some rest
  | _ :: _, [] => none
  | p :: base, q :: rest => if p = q then below? base rest else none

/-- The names in the directory at a place, in order. -/
def namesIn (disk : Disk) (place : List Text) : List Text :=
  Text.sort (Text.distinct ((disk.dirs ++ disk.files.map (·.1)).filterMap fun entry =>
    (below? place entry).bind List.head?))

/-- The files below a place by their parts seen from there. -/
def filesBelow (disk : Disk) (place : List Text) : List (List Text) :=
  disk.files.filterMap fun f => below? place f.1

/-- The directories below a place by their parts seen from there. -/
def dirsBelow (disk : Disk) (place : List Text) : List (List Text) :=
  (disk.dirs.filterMap (below? place)).filter fun rest => !rest.isEmpty

/-- The names in a directory, in order; nothing for any other location. -/
def listDir (disk : Disk) (cwd : List Text) (l : Location) : Except Refusal (List Text) := do
  match ← disk.dir? cwd l with
  | some place => return disk.namesIn place
  | none => return []

/-- The files below a directory as paths seen from there, in order; nothing for any other
location. -/
def walk (disk : Disk) (cwd : List Text) (l : Location) : Except Refusal (List Text) := do
  match ← disk.dir? cwd l with
  | some place => return Text.sort ((disk.filesBelow place).map (Text.join ['/']))
  | none => return []

/-- The bytes of a file. -/
def readBytes (disk : Disk) (cwd : List Text) (l : Location) : Except Refusal Bytes :=
  match disk.lookup cwd l with
  | .ok (_, .file bytes) => .ok bytes
  | .ok (_, .directory) => .error (refusal l .isDirectory)
  | .error kind => .error (refusal l kind)

/-- Whether an entry can be made at a place: its directory must be there. -/
def canMake (disk : Disk) (place : List Text) : Except Refusal.Kind Unit :=
  match disk.node? place.dropLast with
  | some .directory => if isRemoved place.dropLast then .error .missing else .ok ()
  | some (.file _) => .error .notDirectory
  | none => .error .missing

/-- The disk with one more directory, whose own directory must be there. -/
def makeDir (disk : Disk) (cwd : List Text) (l : Location) : Except Refusal.Kind Disk := do
  let place ← disk.place cwd l
  match disk.node? place with
  | some _ => .error .fileExists
  | none => do
    disk.canMake place
    .ok { disk with dirs := disk.dirs ++ [place] }

/-- The disk with a file written, whose directory must be there. -/
def writeBytes (disk : Disk) (cwd : List Text) (l : Location) (bytes : Bytes) :
    Except Refusal Disk :=
  let written : Except Refusal.Kind Disk := do
    let place ← disk.place cwd l
    match disk.node? place with
    | some .directory => .error .isDirectory
    | some (.file _) =>
      .ok { disk with files := disk.files.map fun f => if f.1 = place then (place, bytes) else f }
    | none => do
      disk.canMake place
      .ok { disk with files := disk.files ++ [(place, bytes)] }
  written.mapError (refusal l)

/-- The disk without what lies at a place and below it. -/
def removeAt (disk : Disk) (place : List Text) : Disk :=
  { dirs := disk.dirs.filter fun d => (below? place d).isNone
    files := disk.files.filter fun f => (below? place f.1).isNone }

/-- The disk without a file, and without a directory and everything below it. A location that leads
nowhere is left alone. -/
def remove (disk : Disk) (cwd : List Text) (l : Location) : Except Refusal Disk := do
  match ← disk.find? cwd l with
  | some (place, _) => return disk.removeAt place
  | none => return disk

/-- Makes a directory unless it is there. -/
def ensureDir (cwd : List Text) (disk : Disk) (l : Location) : Except Refusal Unit × Disk :=
  match disk.makeDir cwd l with
  | .ok made => (.ok (), made)
  | .error kind =>
    match disk.isDir cwd l with
    | .ok true => (.ok (), disk)
    | _ => (.error (refusal l kind), disk)

/-- Makes the directory of a location and, before it, each missing one above it. Directories made
before a refusal stay. -/
def makeDirs (cwd : List Text) (disk : Disk) (l : Location) : Except Refusal Unit × Disk :=
  match disk.makeDir cwd l with
  | .error .missing =>
    if _h : l.parts = [] then (.error (refusal l .missing), disk)
    else
      match makeDirs cwd disk l.parent with
      | (.error refused, disk) => (.error refused, disk)
      | (.ok _, disk) => ensureDir cwd disk l
  | _ => ensureDir cwd disk l
termination_by l.parts.length
decreasing_by
  simp only [Location.parent, List.length_dropLast]
  have := List.length_pos_iff.mpr _h
  omega

/-- Writes a file after making the directories above it. -/
def writeFile (cwd : List Text) (disk : Disk) (l : Location) (bytes : Bytes) :
    Except Refusal Unit × Disk :=
  match makeDirs cwd disk l.parent with
  | (.error refused, disk) => (.error refused, disk)
  | (.ok _, disk) =>
    match disk.writeBytes cwd l bytes with
    | .ok disk => (.ok (), disk)
    | .error refused => (.error refused, disk)

/-- The files below a place as paths seen from there, with their bytes, in order. -/
def sortedFiles (disk : Disk) (place : List Text) : List (Text × Bytes) :=
  let entries := disk.files.filterMap fun f =>
    match below? place f.1 with
    | some (part :: rest) => some (Text.join ['/'] (part :: rest), f.2)
    | _ => none
  entries.mergeSort fun a b => Text.le a.1 b.1

end Disk

end AddonBundle
