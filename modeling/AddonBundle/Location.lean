import AddonBundle.Path
/-!
# Locations on a disk

A location is absolute or relative to the working directory. Empty parts and `.` are dropped when
it is read from a text, while `..` stays, since it is for the disk to say where it leads.
-/

namespace AddonBundle

/-- Slashes at the start (none for a relative location, one, or exactly two), and parts. -/
structure Location where
  slashes : Nat := 0
  parts : List Text := []
deriving Repr, DecidableEq

namespace Location

open Text

/-- Reads a location. -/
def ofText (text : Text) : Location :=
  ⟨Path.leadingSlashes text, (split '/' text).filter fun p => p ≠ [] && p ≠ ['.']⟩

/-- The text of a location; the working directory is `.`. -/
def text (l : Location) : Text :=
  let body := List.replicate l.slashes '/' ++ join ['/'] l.parts
  if body.isEmpty then ['.'] else body

/-- Whether a location does not depend on the working directory. -/
def isAbsolute (l : Location) : Bool :=
  l.slashes ≠ 0

/-- A location seen from another; an absolute one stands for itself. -/
def append (base l : Location) : Location :=
  if l.isAbsolute then l else ⟨base.slashes, base.parts ++ l.parts⟩

/-- The location of the directory that holds an entry. -/
def parent (l : Location) : Location :=
  ⟨l.slashes, l.parts.dropLast⟩

/-- The name of an entry in its directory. -/
def name (l : Location) : Text :=
  l.parts.getLast?.getD []

/-- The parts from the root of the disk, for a working directory. -/
def absolute (cwd : List Text) (l : Location) : List Text :=
  if l.isAbsolute then l.parts else cwd ++ l.parts

/-- An absolute location without `..`. -/
def resolve (cwd : List Text) (l : Location) : Location :=
  ⟨1, ((l.absolute cwd).foldl (Path.pushPart true) []).reverse⟩

end Location

end AddonBundle
