import AddonBundle.Json.Value
import AddonBundle.Location
import AddonBundle.Toml.Value
/-!
# Settings

A setting is a value given for a field of the configuration, before it is known to fit. It comes
from a document, from the command line or from a caller.
-/

namespace AddonBundle

/-- A value given for a field. -/
inductive Setting where
  | missing
  | bool (b : Bool)
  | int (n : Int)
  | double (d : Double)
  | text (s : Text)
  /-- A string that is no text, since it has halves of characters in it. -/
  | brokenText
  | location (l : Location)
  | list (items : List Setting)
  /-- A value of a kind that fits no field. -/
  | other
deriving Repr

mutual

/-- The setting of a value given by a caller. -/
def Setting.ofJson : Json.Value → Setting
  | .null => .missing
  | .bool b => .bool b
  | .int n => .int n
  | .double d => .double d
  | .string s =>
    if s.all fun point => (CodePoint.toChar? point).isSome then .text (CodePoint.toText s)
    else .brokenText
  | .array items => .list (settingsOfJson items)
  | .object _ => .other

/-- The settings of the items of an array. -/
def settingsOfJson : List Json.Value → List Setting
  | [] => []
  | item :: items => Setting.ofJson item :: settingsOfJson items

end

/-- The settings by field, each field once. -/
abbrev Settings := List (Text × Setting)

mutual

/-- The setting of a value in a document. -/
def Setting.ofToml : Toml.Value → Setting
  | .string s => .text s
  | .int n => .int n
  | .double d => .double d
  | .bool b => .bool b
  | .array items => .list (settingsOfToml items)
  | .dateTime _ | .date _ | .time _ | .table _ => .other

/-- The settings of the items of an array. -/
def settingsOfToml : List Toml.Value → List Setting
  | [] => []
  | item :: items => Setting.ofToml item :: settingsOfToml items

end

end AddonBundle
