import AddonBundle.Bundle.Catalogs
/-!
# The version record

The manifest of the collection names its version. The version and the languages are recorded in the
output, as the last thing that a run writes.
-/

namespace AddonBundle.Bundle

variable {σ : Type}

/-- The manifest of a collection. -/
def manifestFile : Text := "manifest.json".toList

/-- The record in the output. -/
def recordFile : Text := "upstream-meta.json".toList

/-- The version that a manifest names. -/
def versionOf (manifest : Json.Value) : Option CodeText :=
  match manifest.get? "version_name".toList with
  | some (.string version) => some version
  | _ => none

/-- The version of a collection. -/
def readVersion (source : View σ) (s : σ) : Except Failure CodeText :=
  match source.present s manifestFile with
  | .error failure => .error failure
  | .ok false => .error (.fault (.manifestMissing manifestFile))
  | .ok true =>
    match readJson source s manifestFile (Fault.manifestInvalid · manifestFile) with
    | .error failure => .error failure
    | .ok manifest =>
      match versionOf manifest with
      | some version => .ok version
      | none => .error (.fault (.versionMissing manifestFile))

/-- The record of a version and languages. -/
def versionRecord (version : CodeText) (languages : List Text) : CodeText :=
  Json.minimal (.object
    [(CodePoint.ofText "version".toList, .string version),
      (CodePoint.ofText "languages".toList, .array (languages.map .ofText))])

/-- Writes the record of a version and languages. -/
def writeRecord (output : View σ) (version : CodeText) (languages : List Text) : Build σ Unit :=
  Build.write (output.writeText recordFile (versionRecord version languages))

end AddonBundle.Bundle
