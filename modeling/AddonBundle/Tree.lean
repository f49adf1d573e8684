import AddonBundle.Assoc
import AddonBundle.Fault
import AddonBundle.Path
/-!
# Trees in memory

A tree holds files by key; its directories are implied by the keys. Listing is in order of names.
-/

namespace AddonBundle

/-- Files by key, each key once. -/
structure Tree where
  files : List (Text × Bytes) := []
deriving Repr, DecidableEq

namespace Tree

/-- The keys of the files. -/
def keys (tree : Tree) : List Text :=
  tree.files.map (·.1)

/-- The bytes of the file with a key. -/
def get? (tree : Tree) (key : Text) : Option Bytes :=
  Assoc.get? key tree.files

/-- Whether a path is a file. -/
def isFile (tree : Tree) (path : Text) : Bool :=
  (tree.get? (Path.key path)).isSome

/-- Whether a key is a proper start of the key of a file, up to a slash. -/
def hasBelow (tree : Tree) (key : Text) : Bool :=
  tree.keys.any fun k => (key ++ ['/']).isPrefixOf k

/-- Whether a path is a directory: the root, or a path with a file below it. -/
def isDir (tree : Tree) (path : Text) : Bool :=
  (Path.key path).isEmpty || tree.hasBelow (Path.key path)

/-- Whether a path is a file or a directory. -/
def present (tree : Tree) (path : Text) : Bool :=
  tree.isFile path || tree.isDir path

/-- The start of the keys below a path. -/
def keyStart (path : Text) : Text :=
  let key := Path.key path
  if key.isEmpty then [] else key ++ ['/']

/-- The keys below a path, seen from there. -/
def keysBelow (tree : Tree) (path : Text) : List Text :=
  tree.keys.filterMap (Text.after? (keyStart path))

/-- The names in a directory, in order. -/
def listDir (tree : Tree) (path : Text) : List Text :=
  Text.sort (Text.distinct ((tree.keysBelow path).map fun k => k.takeWhile (· ≠ '/')))

/-- The files below a directory, seen from there, in order. -/
def walk (tree : Tree) (path : Text) : List Text :=
  Text.sort (tree.keysBelow path)

/-- The bytes of a file. -/
def readBytes (tree : Tree) (path : Text) : Except Failure Bytes :=
  match tree.get? (Path.key path) with
  | some bytes => .ok bytes
  | none => .error (.absent path)

/-- The tree with a file written. -/
def writeBytes (tree : Tree) (path : Text) (bytes : Bytes) : Tree :=
  ⟨Assoc.put (Path.key path) bytes tree.files⟩

/-- The tree without a file, and without everything below a directory. -/
def remove (tree : Tree) (path : Text) : Tree :=
  let key := Path.key path
  ⟨tree.files.filter fun f => f.1 ≠ key && !(key ++ ['/']).isPrefixOf f.1⟩

/-- The tree with files written one after the other. -/
def ofFiles (files : List (Text × Bytes)) : Tree :=
  files.foldl (fun tree f => tree.writeBytes f.1 f.2) {}

/-- The files in order of their keys. -/
def sortedFiles (tree : Tree) : List (Text × Bytes) :=
  tree.files.mergeSort fun a b => Text.le a.1 b.1

/-- How a tree is shown. -/
def shown (tree : Tree) : Text :=
  "MemoryTree(".toList ++ Text.ofNat tree.files.length ++ " files)".toList

end Tree

end AddonBundle
