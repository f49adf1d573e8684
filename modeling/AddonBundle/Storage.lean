import AddonBundle.Disk
import AddonBundle.Tree
/-!
# Storage

A bundling run reads a collection and a host and writes an output. Each is a tree of files inside
a state: a tree in memory, or a directory of a disk. A view gives the operations on one such tree.
A refused write may still have changed the state, so writing answers with both.
-/

namespace AddonBundle

/-- The operations on one tree of files inside a state. -/
structure View (σ : Type) where
  present : σ → Text → Except Failure Bool
  isDir : σ → Text → Except Failure Bool
  listDir : σ → Text → Except Failure (List Text)
  walk : σ → Text → Except Failure (List Text)
  readBytes : σ → Text → Except Failure Bytes
  writeBytes : Text → Bytes → σ → Except Failure Unit × σ
  writeText : Text → CodeText → σ → Except Failure Unit × σ
  remove : Text → σ → Except Failure Unit × σ

/-- Whether a path leads to a file. -/
def View.isFile {σ : Type} (view : View σ) (s : σ) (path : Text) : Except Failure Bool := do
  if ← view.present s path then return !(← view.isDir s path)
  else return false

/-- The text of a file. -/
def View.readText {σ : Type} (view : View σ) (s : σ) (path : Text) : Except Failure Text :=
  match view.readBytes s path with
  | .error failure => .error failure
  | .ok bytes =>
    match Utf8.decode bytes with
    | .ok text => .ok text
    | .error e => .error (.undecodable e)

/-- The tree in memory that a state holds in one of its fields. A text is encoded before anything
is written. -/
def View.memory {σ : Type} (get : σ → Tree) (set : Tree → σ → σ) : View σ where
  present s path := .ok ((get s).present path)
  isDir s path := .ok ((get s).isDir path)
  listDir s path := .ok ((get s).listDir path)
  walk s path := .ok ((get s).walk path)
  readBytes s path := (get s).readBytes path
  writeBytes path bytes s := (.ok (), set ((get s).writeBytes path bytes) s)
  writeText path text s :=
    match Utf8.encodeCode text with
    | .ok bytes => (.ok (), set ((get s).writeBytes path bytes) s)
    | .error e => (.error (.unencodable e), s)
  remove path s := (.ok (), set ((get s).remove path) s)

/-- The location of a path below a root. -/
def View.locate (root : Location) (path : Text) : Location :=
  root.append ⟨0, (Text.split '/' (Path.key path)).filter fun p => !p.isEmpty⟩

/-- The tree below a directory of a disk. A text is encoded after its file has been opened, which
empties it. -/
def View.disk (cwd : List Text) (root : Location) : View Disk where
  present disk path := (disk.present cwd (locate root path)).mapError .refused
  isDir disk path := (disk.isDir cwd (locate root path)).mapError .refused
  listDir disk path := (disk.listDir cwd (locate root path)).mapError .refused
  walk disk path := (disk.walk cwd (locate root path)).mapError .refused
  readBytes disk path := (disk.readBytes cwd (locate root path)).mapError .refused
  writeBytes path bytes disk :=
    let (outcome, disk) := disk.writeFile cwd (locate root path) bytes
    (outcome.mapError .refused, disk)
  writeText path text disk :=
    match disk.writeFile cwd (locate root path) [] with
    | (.error refusal, disk) => (.error (.refused refusal), disk)
    | (.ok _, opened) =>
      match Utf8.encodeCode text with
      | .error e => (.error (.unencodable e), opened)
      | .ok bytes =>
        let (outcome, disk) := opened.writeFile cwd (locate root path) bytes
        (outcome.mapError .refused, disk)
  remove path disk :=
    match disk.remove cwd (locate root path) with
    | .ok removed => (.ok (), removed)
    | .error refusal => (.error (.refused refusal), disk)

/-- How the tree below a directory is shown. -/
def View.shownDisk (root : Location) : Text :=
  "DiskTree(".toList ++ Text.quoted root.text ++ ")".toList

/-- The three trees of a run. -/
structure Places (σ : Type) where
  source : View σ
  host : View σ
  output : View σ

/-- Three separate trees in memory. -/
structure Trees where
  source : Tree := {}
  host : Tree := {}
  output : Tree := {}
deriving Repr, DecidableEq

/-- A run over three separate trees in memory. -/
def Places.memory : Places Trees where
  source := .memory (·.source) fun tree s => { s with source := tree }
  host := .memory (·.host) fun tree s => { s with host := tree }
  output := .memory (·.output) fun tree s => { s with output := tree }

/-- A run over three directories of one disk, which may overlap. -/
def Places.disk (cwd : List Text) (source host output : Location) : Places Disk where
  source := .disk cwd source
  host := .disk cwd host
  output := .disk cwd output

end AddonBundle
