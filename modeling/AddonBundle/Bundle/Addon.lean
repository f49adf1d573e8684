import AddonBundle.Bundle.Libraries
import AddonBundle.Bundle.Restyling
import AddonBundle.FileKind
import AddonBundle.License
import AddonBundle.Stylesheet.ClassMapping
/-!
# Bundling an addon

The files of an addon are bundled in order. A script has its libraries copied, its markers
collected and its path expressions linked; scripts and stylesheets are stamped; other files are
copied as they are. The markers are restyled once all files are bundled.
-/

namespace AddonBundle.Bundle

variable {σ : Type}

/-- What a run is told to do. -/
structure Settings where
  /-- The addons to bundle, in order. -/
  addons : List Text
  /-- The extensions of media files. -/
  extensions : List Text := Script.defaultExtensions
  /-- The licence header. -/
  header : Text := License.defaultHeader
  /-- Whether what an earlier run wrote is removed first. -/
  clean : Bool := true
deriving Repr, DecidableEq

/-- The directory of the addons. -/
def addonsDir : Text := "addons".toList

/-- Reading a file of an addon: a file that cannot be read is a fault. -/
def readable {α : Type} (path : Text) (outcome : Except Failure α) : Build σ α :=
  match outcome with
  | .ok a => return a
  | .error failure =>
    if failure.isUnreadable then Build.fault (.fileUnreadable failure.message path)
    else throw failure

/-- Warns about paths that lead nowhere. -/
def warnMissing (script : Text) : List Text → Build σ Unit
  | [] => return ()
  | path :: rest => do
    let message := Script.missingWarning script path
    Build.log .warning (Text.escapeMarkup message)
    Build.record (.warning message)
    warnMissing script rest

/-- Links a script; gives its new text, and its table if it was linked. -/
def linkScript (source : View σ) (extensions : List Text) (path text : Text) :
    Build σ (Text × Option Script.AssetTable) := do
  if Script.mentionsRoot text then
    let media ← Build.ofExcept
      (Script.mediaFiles source (← Build.storage) extensions (Path.parent path))
    let linked := Script.link media path text
    warnMissing path linked.missing
    Build.record (.linking path linked.table.assets linked.table.libraries linked.sites)
    return (linked.text, some linked.table)
  else return (text, none)

/-- Stamps a text. -/
def stamp (header path text : Text) : Build σ Text := do
  if License.isStated header text then return text
  else
    Build.record (.licenseStamp path)
    return License.stamp header text

/-- Writes a text of the bundle. -/
def writeFile (output : View σ) (path text : Text) : Build σ Unit := do
  Build.write (output.writeText path (CodePoint.ofText text))
  modify fun s => { s with written := s.written ++ [path] }

/-- The markers of a script; a name that does not decompose is a fault. -/
def markersOf (path text : Text) : Build σ (List Script.ClassMarker) :=
  match Script.classMarkers text with
  | .ok markers => return markers.map (·.value)
  | .error token => Build.fault (.markerMalformed token (some path) none)

/-- Bundles a script; gives its markers. -/
def bundleScript (places : Places σ) (settings : Settings) (path : Text) :
    Build σ (List Script.ClassMarker) := do
  let text ← readable path (places.source.readText (← Build.storage) path)
  let _ ← copyLibraries places (Script.libraryReferences text)
  let markers ← markersOf path text
  let (linked, _) ← linkScript places.source settings.extensions path text
  let stamped ← stamp settings.header path linked
  writeFile places.output path stamped
  return markers

/-- Bundles a stylesheet. -/
def bundleStylesheet (places : Places σ) (settings : Settings) (path : Text) : Build σ Unit := do
  let text ← readable path (places.source.readText (← Build.storage) path)
  let stamped ← stamp settings.header path text
  writeFile places.output path stamped

/-- Copies a file. -/
def copyFile (places : Places σ) (path : Text) : Build σ Unit := do
  let bytes ← readable path (places.source.readBytes (← Build.storage) path)
  Build.write (places.output.writeBytes path bytes)
  modify fun s => { s with written := s.written ++ [path] }

/-- Bundles a file by its kind; gives its markers. -/
def bundleFile (places : Places σ) (settings : Settings) (path : Text) :
    Build σ (List Script.ClassMarker) :=
  match FileKind.ofPath path with
  | .script => bundleScript places settings path
  | .stylesheet => do
    bundleStylesheet places settings path
    return []
  | .other => do
    copyFile places path
    return []

/-- Bundles files below a directory in order; gives their markers. -/
def bundleFiles (places : Places σ) (settings : Settings) (directory : Text) :
    List Text → Build σ (List Script.ClassMarker)
  | [] => return []
  | file :: rest => do
    let markers ← bundleFile places settings (directory ++ '/' :: file)
    let others ← bundleFiles places settings directory rest
    return markers ++ others

/-- Bundles an addon. -/
def bundleAddon (places : Places σ) (settings : Settings) (addon : Text) : Build σ Unit := do
  let directory := addonsDir ++ '/' :: addon
  let storage ← Build.storage
  if ← Build.ofExcept (places.source.isDir storage directory) then
    let files ← Build.ofExcept (places.source.walk storage directory)
    let markers ← bundleFiles places settings directory files
    let _ ← restyle places.host Stylesheet.componentsDir (Stylesheet.groupMarkers markers)
  else Build.fault (.addonMissing directory addon)

end AddonBundle.Bundle
