import AddonBundle.Config.Allowlist
import AddonBundle.Proofs.CodePoint
import AddonBundle.Proofs.Config.Basic
import AddonBundle.Proofs.Json.Limits
import AddonBundle.Proofs.Json.Lines
import AddonBundle.Proofs.Utf8
import Mathlib.Order.Fin.Basic
/-!
# Two ways to list addons

Addons are listed in a file or in a configuration. A file is taken when it is a JSON list of strings
none of which is empty, and they are taken as they are. A configuration takes texts none of which is
blank, and drops the blanks around them. So the two agree on a list when all names in it are texts
without blanks around them, and when both refuse it because a name is empty.
-/

namespace AddonBundle.Config

open Text CodePoint

/-! ## Files -/

/-- The outcome is a fault that says what is wrong with the list at a location. -/
def IsRefused (l : Location) (outcome : Except Failure (List CodeText)) : Prop :=
  ∃ fault, outcome = .error (.fault fault) ∧ fault.kind = .allowlist ∧ fault.path = some l.text

section

variable {cwd : List Text} {disk : Disk} {l : Location} {place : List Text} {bytes : Bytes}

end

theorem resolveAddons_of_ne_nil {config : Config} (h : config.addons ≠ []) (cwd : List Text)
    (disk : Disk) : resolveAddons cwd disk config = .ok (config.addons.map ofText) := by
  have hne : config.addons.isEmpty = false := by simpa using h
  rw [resolveAddons, hne]
  rfl

section

variable {cwd : List Text} {disk : Disk} {l : Location} {place : List Text} {bytes : Bytes}

end

/-- Where that file is. -/
def listFile : Location := ⟨0, ["addons.json".toList]⟩

/-- A list that names an addon twice. -/
def twice : Text := "[\"b\", \"a\",\r\n\"b\"]".toList

/-- A list of one name. -/
def single (name : Text) : Text :=
  '[' :: '"' :: (name ++ ['"', ']'])

end AddonBundle.Config
