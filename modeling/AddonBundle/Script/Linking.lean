import AddonBundle.Path
import AddonBundle.Script.AssetTable
import AddonBundle.Script.PathSite
import AddonBundle.Storage
import AddonBundle.Text.Lower
/-!
# Linking scripts

Linking makes the files that a script reaches at run time known before it runs: every path
expression becomes a call of the look-up function that the script's header defines. A script that
mentions no root of paths is left alone.
-/

namespace AddonBundle.Script

open Text

/-- The directory of the shared libraries. -/
def librariesDir : Text := "libraries".toList

/-- The extensions of media files, unless others are configured. -/
def defaultExtensions : List Text :=
  [".svg".toList, ".png".toList, ".jpg".toList, ".jpeg".toList, ".gif".toList, ".webp".toList,
    ".mp3".toList, ".wav".toList, ".ogg".toList]

/-- Whether a file name has one of the extensions, in any case of letters. -/
def isMedia (extensions : List Text) (name : Text) : Bool :=
  extensions.any fun extension => (lower extension).isSuffixOf (lower name)

/-- The media files directly in a directory, in order. -/
def mediaFiles {σ : Type} (view : View σ) (s : σ) (extensions : List Text) (directory : Text) :
    Except Failure (List Text) := do
  (← view.listDir s directory).filterM fun name => do
    let child := if directory.isEmpty then name else Path.append directory name
    return !(← view.isDir s child) && isMedia extensions name

/-- The way from a script's directory to the shared libraries. -/
def librariesPath (directory : Text) : Text :=
  Path.relative librariesDir (if directory.isEmpty then ['.'] else directory)

/-- What stands in a linked script for a path expression. -/
def linkedSite (site : PathExpression) : Text :=
  "/* changed by addon-porter */ ".toList ++ AssetTable.lookupName ++ '(' :: site.operand ++ [')']

/-- The text with its path expressions replaced. An expression without an operand stays. -/
def linkSites (text : Text) : Text :=
  (pieces recogniseSite text).flatMap fun
    | .plain c => [c]
    | .item site written => if site.operand.isEmpty then written else linkedSite site

/-- A linked script. -/
structure Linked where
  text : Text
  table : AssetTable
  /-- The number of expressions replaced. -/
  sites : Nat
  /-- The paths that are written out and lead nowhere, in order. -/
  missing : List Text
deriving Repr, DecidableEq

/-- The paths written out in a script that a table does not have, in order. -/
def missingPaths (table : AssetTable) (text : Text) : List Text :=
  (pathSites text).filterMap fun site =>
    (literalPath site.value.operand).filter fun path => (table.get? path).isNone

/-- Links a script, given the media files beside it. -/
def link (media : List Text) (path text : Text) : Linked :=
  let table : AssetTable := ⟨media, distinct ((libraryLoads text).map (·.value))⟩
  { text := table.header (librariesPath (Path.parent path)) ++ linkSites text
    table
    sites := (pathSites text).length
    missing := missingPaths table text }

/-- The warning about a path that leads nowhere. -/
def missingWarning (script path : Text) : Text :=
  script ++ ": no asset or library for literal path '".toList ++ path ++ ['\'']

end AddonBundle.Script
