import AddonBundle.Disk
import AddonBundle.Json.Value
/-!
# Snapshots

A snapshot is an account of files in JSON: those that a program finds, or those that it has
changed. The content of a file is a string when its bytes are a text, and otherwise an object with
the bytes in base sixteen.
-/

namespace AddonBundle.Snapshot

/-- Bytes in base sixteen, two digits each. -/
def hexOf (bytes : Bytes) : Text :=
  bytes.flatMap fun b => Text.hex 2 b.toNat

/-- Reads bytes in base sixteen. -/
def ofHex? : Text → Option Bytes
  | [] => some []
  | [_] => none
  | a :: b :: rest => do
    let high ← Text.hexDigit? a
    let low ← Text.hexDigit? b
    let bytes ← ofHex? rest
    some (UInt8.ofNat (16 * high + low) :: bytes)

/-- Bytes as an object with their digits. -/
def rawContent (bytes : Bytes) : Json.Value :=
  .object [(CodePoint.ofText "hex".toList, .ofText (hexOf bytes))]

/-- The content of a file. -/
def content (bytes : Bytes) : Json.Value :=
  match Utf8.decode bytes with
  | .ok text => .ofText text
  | .error _ => rawContent bytes

/-- Reads the content of a file. -/
def bytes? (value : Json.Value) : Option Bytes :=
  match value with
  | .string s => some (Utf8.encode (CodePoint.toText s))
  | _ =>
    match value.get? "hex".toList with
    | some (.string digits) => ofHex? (CodePoint.toText digits)
    | _ => none

/-- A file as the pair of its path and its content. -/
def file (entry : Text × Bytes) : Json.Value :=
  .array [.ofText entry.1, content entry.2]

/-- Reads a file. -/
def file? (value : Json.Value) : Option (Text × Bytes) :=
  match value with
  | .array [.string path, value] => (fun bytes => (CodePoint.toText path, bytes)) <$> bytes? value
  | _ => none

/-- Files in their order. -/
def files (entries : List (Text × Bytes)) : Json.Value :=
  .array (entries.map file)

/-- A disk with directories made and files written, one after the other, for a working directory.
What the disk refuses is left out. -/
def populate (cwd : List Text) (dirs : List Text) (entries : List (Text × Bytes)) (disk : Disk) :
    Disk :=
  let made := dirs.foldl
    (fun disk path => (disk.makeDirs cwd (.ofText path)).2) disk
  entries.foldl (fun disk f => (disk.writeFile cwd (.ofText f.1) f.2).2) made

/-- What differs between two disks. -/
structure Changes where
  /-- The files that are new or have other bytes, in order. -/
  written : List (Text × Bytes)
  /-- The files that are gone, in order. -/
  deleted : List Text
deriving Repr, DecidableEq

/-- The changes below a place from one disk to another. -/
def changes (place : List Text) (before after : Disk) : Changes :=
  let old := before.sortedFiles place
  let new := after.sortedFiles place
  { written := new.filter fun f => !old.contains f
    deleted := (old.map (·.1)).filter fun path => !(new.map (·.1)).contains path }

end AddonBundle.Snapshot
