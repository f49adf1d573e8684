import AddonBundle.Limit
import AddonBundle.Text.Markup
import AddonBundle.Text.Quoted
import AddonBundle.Text.Utf8
/-!
# Faults

A fault is something wrong with the collection, the host or the configuration. It says what is
wrong and, where known, in which file and while bundling which addon. A failure is a fault, or
something that the storage below refused.
-/

namespace AddonBundle

/-- The kinds of faults. -/
inductive Fault.Kind where
  | general
  | missingLibrary
  | missingStylesheet
  | undefinedVariable
  | malformedMarker (token : Text)
  | unresolvedAsset
  | catalog
  | manifest
  | allowlist
  | unreadableFile
deriving Repr, DecidableEq

/-- What is wrong, in which file, and in which addon. -/
structure Fault where
  kind : Fault.Kind
  detail : Text
  path : Option Text := none
  addon : Option Text := none
deriving Repr, DecidableEq

namespace Fault

/-- A place in square brackets before a message; an empty one is left out. -/
def tag (label : Text) (place : Option Text) : Text :=
  match place with
  | some (c :: cs) => '[' :: label ++ (c :: cs) ++ "] ".toList
  | _ => []

/-- The wording of a fault, after the addon and the file it concerns. -/
def message (fault : Fault) : Text :=
  tag "addon: ".toList fault.addon ++ tag [] fault.path ++ fault.detail

/-- An addon of the allow-list that the collection does not have. -/
def addonMissing (path addon : Text) : Fault :=
  ⟨.general, "Addon not found in source tree".toList, some path, some addon⟩

/-- A shared library that the collection does not have. -/
def libraryMissing (file path : Text) : Fault :=
  ⟨.missingLibrary, "Shared library not found: ".toList ++ file, some path, none⟩

/-- A stylesheet that markers name and the host does not have. -/
def markedSheetMissing (sheet path : Text) : Fault :=
  ⟨.missingStylesheet, "Stylesheet for class markers not found: ".toList ++ sheet, some path,
    none⟩

/-- A stylesheet that is no file. -/
def sheetMissing (path : Text) : Fault :=
  ⟨.missingStylesheet, "Stylesheet not found: ".toList ++ path, some path, none⟩

/-- A stylesheet that another one imports and that is no file. -/
def importMissing (target importer : Text) : Fault :=
  ⟨.missingStylesheet, "Imported stylesheet not found: ".toList ++ target, some importer, none⟩

/-- A variable without a definition before its use. -/
def variableUndefined (name : Text) (path : Option Text) : Fault :=
  ⟨.undefinedVariable, "Undefined variable $".toList ++ name, path, none⟩

/-- A marker whose name does not decompose. -/
def markerMalformed (token : Text) (path addon : Option Text) : Fault :=
  ⟨.malformedMarker token,
    "Malformed FIXCLASS marker: '".toList ++ token ++ "'".toList, path, addon⟩

/-- A look-up of a path without an entry. -/
def assetUnknown (path : Text) : Fault :=
  ⟨.unresolvedAsset, "Unknown asset: ".toList ++ path, none, none⟩

/-- A catalog that is no JSON text. -/
def catalogInvalid (reason path addon : Text) : Fault :=
  ⟨.catalog, "Invalid localization catalog: ".toList ++ reason, some path, some addon⟩

/-- A collection without a manifest. -/
def manifestMissing (path : Text) : Fault :=
  ⟨.manifest, "Upstream manifest not found".toList, some path, none⟩

/-- A manifest that is no JSON text. -/
def manifestInvalid (reason path : Text) : Fault :=
  ⟨.manifest, "Invalid manifest JSON: ".toList ++ reason, some path, none⟩

/-- A manifest without a version name. -/
def versionMissing (path : Text) : Fault :=
  ⟨.manifest, "Manifest has no 'version_name'".toList, some path, none⟩

/-- A file of an addon that cannot be read. -/
def fileUnreadable (reason path : Text) : Fault :=
  ⟨.unreadableFile, "Cannot read file: ".toList ++ reason, some path, none⟩

/-- A stylesheet that cannot be read. -/
def sheetUnreadable (reason path : Text) : Fault :=
  ⟨.unreadableFile, "Cannot read stylesheet: ".toList ++ reason, some path, none⟩

/-- A configuration without an allow-list. -/
def allowlistUnset : Fault :=
  ⟨.allowlist, "No addon allow-list configured (set 'addons' or 'addons_file')".toList, none,
    none⟩

/-- An allow-list that is no file. -/
def allowlistMissing (path : Text) : Fault :=
  ⟨.allowlist, "Addon allow-list not found".toList, some path, none⟩

/-- An allow-list that is no JSON text. -/
def allowlistInvalid (reason path : Text) : Fault :=
  ⟨.allowlist, "Invalid JSON: ".toList ++ reason, some path, none⟩

/-- An allow-list that is no list of names. -/
def allowlistShape (path : Text) : Fault :=
  ⟨.allowlist, "Allow-list must be a JSON array of addon identifiers".toList, some path, none⟩

end Fault

/-- Why the file system refuses an operation. -/
inductive Refusal.Kind where
  | missing
  | notDirectory
  | isDirectory
  | fileExists
  | invalidArgument
  | nameTooLong
  | notEmpty
  /-- The name has a null character in it, which no file system is asked about. -/
  | nullCharacter
deriving Repr, DecidableEq

/-- The number of a refusal; what the file system is not asked about has none. -/
def Refusal.Kind.number : Refusal.Kind → Nat
  | .missing => 2
  | .fileExists => 17
  | .notDirectory => 20
  | .isDirectory => 21
  | .invalidArgument => 22
  | .nameTooLong => 36
  | .notEmpty => 39
  | .nullCharacter => 0

/-- The wording of a refusal. -/
def Refusal.Kind.message : Refusal.Kind → Text
  | .missing => "No such file or directory".toList
  | .fileExists => "File exists".toList
  | .notDirectory => "Not a directory".toList
  | .isDirectory => "Is a directory".toList
  | .invalidArgument => "Invalid argument".toList
  | .nameTooLong => "File name too long".toList
  | .notEmpty => "Directory not empty".toList
  | .nullCharacter => "embedded null byte".toList

/-- A refusal of the file system, with the name it concerns as it is shown. -/
structure Refusal where
  kind : Refusal.Kind
  shown : Text
deriving Repr, DecidableEq

/-- The wording of a refusal. -/
def Refusal.message (r : Refusal) : Text :=
  if r.kind = .nullCharacter then r.kind.message
  else
    "[Errno ".toList ++ Text.ofNat r.kind.number ++ "] ".toList ++ r.kind.message ++
      ": ".toList ++ r.shown

/-- Why an operation did not succeed. -/
inductive Failure where
  | fault (fault : Fault)
  /-- Bytes that are no text. -/
  | undecodable (error : Utf8.DecodeError)
  /-- A text that has no bytes. -/
  | unencodable (error : Utf8.EncodeError)
  /-- A file that a tree in memory does not hold. -/
  | absent (path : Text)
  /-- A refusal of the file system. -/
  | refused (refusal : Refusal)
  /-- A limit that was passed. -/
  | limit (passed : Limit)
  /-- A message that cannot be shown. -/
  | unshowable (fault : Text.MarkupFault)
deriving Repr, DecidableEq

namespace Failure

/-- The wording of a failure. -/
def message : Failure → Text
  | .fault f => f.message
  | .undecodable error => error.message
  | .unencodable error => error.message
  | .absent path => path
  | .refused refusal => refusal.message
  | .limit passed => passed.message
  | .unshowable f => f.message

/-- Whether the storage refused the operation. -/
def isRefusal : Failure → Bool
  | .absent _ => true
  | .refused refusal => refusal.kind ≠ .nullCharacter
  | _ => false

/-- Whether reading a file failed because of the file: it is not there, cannot be opened, or is
no text. -/
def isUnreadable : Failure → Bool
  | .undecodable _ => true
  | failure => failure.isRefusal

/-- Names the addon of a fault that does not name one. -/
def inAddon (addon : Text) : Failure → Failure
  | .fault f => .fault { f with addon := f.addon.or (some addon) }
  | failure => failure

end Failure

end AddonBundle
