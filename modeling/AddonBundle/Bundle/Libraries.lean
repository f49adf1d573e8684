import AddonBundle.Script.Library
import AddonBundle.Script.Linking
import AddonBundle.Session
/-!
# Copying libraries

The shared libraries that scripts refer to are copied once, where they are first referred to.
-/

namespace AddonBundle.Bundle

variable {σ : Type}

/-- The path of a shared library in the collection and in the output. -/
def libraryPath (file : Text) : Text :=
  Script.librariesDir ++ '/' :: file

/-- Copies a library that has not been copied yet; says whether it did. -/
def copyLibrary (places : Places σ) (reference : Script.LibraryReference) : Build σ Bool := do
  if (← get).libraries.contains reference.file then return false
  else
    let path := libraryPath reference.file
    let storage ← Build.storage
    if !(← Build.ofExcept (places.source.isFile storage path)) then
      Build.fault (.libraryMissing reference.file path)
    else
      let bytes ← Build.ofExcept (places.source.readBytes storage path)
      Build.write (places.output.writeBytes path bytes)
      modify fun s => { s with libraries := s.libraries ++ [reference.file] }
      Build.record (.libraryCopy reference.file reference.kind.name)
      return true

/-- Copies libraries one after the other; gives how many were copied. -/
def copyLibraries (places : Places σ) : List Script.LibraryReference → Build σ Nat
  | [] => return 0
  | reference :: rest => do
    let copied ← copyLibrary places reference
    let others ← copyLibraries places rest
    return others + copied.toNat

end AddonBundle.Bundle
