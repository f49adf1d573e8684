import AddonBundle.Config.Basic
import AddonBundle.Disk
import AddonBundle.Json.Reader
/-!
# Allow-lists

The addons to bundle are listed in the configuration, or in a JSON file of names.
-/

namespace AddonBundle.Config

/-- The names of a list of JSON strings that are not empty. -/
def names? : List Json.Value → Option (List CodeText)
  | [] => some []
  | .string (p :: points) :: items => ((p :: points) :: ·) <$> names? items
  | _ :: _ => none

/-- The names in an allow-list, each once. -/
def allowlistOf (path : Text) (value : Json.Value) : Except Failure (List CodeText) :=
  let names :=
    match value with
    | .array items => names? items
    | _ => none
  match names with
  | some names => .ok (Text.distinct names)
  | none => .error (.fault (.allowlistShape path))

/-- Reads an allow-list. -/
def readAllowlist (cwd : List Text) (disk : Disk) (l : Location) :
    Except Failure (List CodeText) :=
  match disk.find? cwd l with
  | .error refusal => .error (.refused refusal)
  | .ok (some (_, .file bytes)) =>
    match Utf8.decode bytes with
    | .error e => .error (.undecodable e)
    | .ok text =>
      let text := Text.uniformLines text
      match Json.read text with
      | .error (.malformed e) => .error (.fault (.allowlistInvalid (e.message text) l.text))
      | .error (.limit passed) => .error (.limit passed)
      | .ok value => allowlistOf l.text value
  | .ok _ => .error (.fault (.allowlistMissing l.text))

/-- The addons that a configuration lists: its own, else those of its file. -/
def resolveAddons (cwd : List Text) (disk : Disk) (config : Config) :
    Except Failure (List CodeText) :=
  if !config.addons.isEmpty then .ok (config.addons.map CodePoint.ofText)
  else
    match config.addonsFile with
    | some l => readAllowlist cwd disk l
    | none => .error (.fault .allowlistUnset)

end AddonBundle.Config
