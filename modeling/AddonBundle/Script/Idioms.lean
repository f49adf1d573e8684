import AddonBundle.Script.Marker
import AddonBundle.Script.PathSite
/-!
# Idioms of a script

Everything in a script that the bundler acts on, collected for a report.
-/

namespace AddonBundle.Script

/-- The families of idioms that can be listed on their own. -/
inductive Family where
  | libraryImport
  | classMarker
  | dynamicLoad
deriving Repr, DecidableEq

/-- The family of a name. -/
def Family.ofName? (name : Text) : Option Family :=
  if name = "library_import".toList then some .libraryImport
  else if name = "class_marker".toList then some .classMarker
  else if name = "dynamic_load".toList then some .dynamicLoad
  else none

/-- What the bundler acts on in one script. -/
structure Idioms where
  libraries : List Text
  loads : List Text
  markers : List Text
  paths : List Text
deriving Repr, DecidableEq

/-- Whether nothing was found. -/
def Idioms.isEmpty (found : Idioms) : Bool :=
  found.libraries.isEmpty && found.loads.isEmpty && found.markers.isEmpty && found.paths.isEmpty

/-- The idioms of a script, or the first marker name that does not decompose. -/
def idioms (text : Text) : Except Text Idioms :=
  (fun markers =>
    { libraries := (libraryImports text).map (·.value)
      loads := (libraryLoads text).map (·.value)
      markers := markers.map (·.value.generated)
      paths := (pathSites text).map (·.value.operand) }) <$> classMarkers text

end AddonBundle.Script
