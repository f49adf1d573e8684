import AddonBundle.Assoc
import AddonBundle.Fault
/-!
# Asset tables

A script that computes addresses at run time is given a look-up function instead. Its header
imports the media files beside the script and the libraries that it loads, each under a binding of
its own, and the function maps `/<file>` to the binding. An asset comes before a library of the
same name, as the function tries the assets first.
-/

namespace AddonBundle.Script

open Text

/-- The name under which a header imports a file: by the file's place in its list. -/
inductive Binding where
  | asset (index : Nat)
  | library (index : Nat)
deriving Repr, DecidableEq

/-- How a script writes a binding. -/
def Binding.text : Binding → Text
  | .asset index => "_twAsset".toList ++ ofNat index
  | .library index => "_twScript".toList ++ ofNat index

/-- The files that a header imports. -/
structure AssetTable where
  assets : List Text := []
  libraries : List Text := []
deriving Repr, DecidableEq

namespace AssetTable

/-- The assets with their bindings, then the libraries with theirs. -/
def imports (table : AssetTable) : List (Text × Binding) :=
  table.assets.mapIdx (fun index name => (name, .asset index)) ++
    table.libraries.mapIdx (fun index name => (name, .library index))

/-- The path by which a script asks for a file. -/
def pathOf (name : Text) : Text :=
  '/' :: name

/-- Paths with their bindings; of files of one name the first counts. -/
def entries (table : AssetTable) : List (Text × Binding) :=
  table.imports.foldl (fun map file => Assoc.putNew (pathOf file.1) file.2 map) []

/-- The binding of a path. -/
def get? (table : AssetTable) (path : Text) : Option Binding :=
  Assoc.get? path table.entries

/-- The binding of a path, or a fault that names the path. -/
def resolve (table : AssetTable) (path : Text) : Except Fault Binding :=
  match table.get? path with
  | some binding => .ok binding
  | none => .error (.assetUnknown path)

/-- The name of the look-up function. -/
def lookupName : Text := "_twGetAsset".toList

/-- The import of a file. A library is imported as the address of its file. -/
def importLine (librariesPath name : Text) (binding : Binding) : Text :=
  let address :=
    match binding with
    | .asset _ => "./".toList ++ name
    | .library _ => "!file-loader!".toList ++ librariesPath ++ '/' :: name
  "import ".toList ++ binding.text ++ " from \"".toList ++ address ++ "\";".toList

/-- The case of a file in the look-up function. -/
def caseLine (name : Text) (binding : Binding) : Text :=
  "  if (path === \"".toList ++ pathOf name ++ "\") return ".toList ++ binding.text ++ [';']

/-- The lines of a header. -/
def headerLines (table : AssetTable) (librariesPath : Text) : List Text :=
  ["/* inserted by addon-porter */".toList] ++
    table.imports.map (fun file => importLine librariesPath file.1 file.2) ++
    ["const ".toList ++ lookupName ++ " = (path) => \x7b".toList] ++
    table.imports.map (fun file => caseLine file.1 file.2) ++
    ["  throw new Error(\x60Unknown asset: $\x7bpath\x7d\x60);".toList, "\x7d;".toList]

/-- The header: the imports, the look-up function and a blank line. -/
def header (table : AssetTable) (librariesPath : Text) : Text :=
  join ['\n'] (table.headerLines librariesPath) ++ "\n\n".toList

end AssetTable

end AddonBundle.Script
