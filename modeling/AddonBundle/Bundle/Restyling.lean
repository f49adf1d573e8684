import AddonBundle.Session
import AddonBundle.Stylesheet.Restyle
/-!
# The generated stylesheet

The restyled rules of all stylesheets that markers name go into one generated stylesheet. The rules
of a stylesheet are appended together, once all of them are known.
-/

namespace AddonBundle.Bundle

variable {σ : Type}

/-- Records the restyled rules of a stylesheet. -/
def recordRules (sheet : Text) : List Stylesheet.RestyledRule → Build σ Unit
  | [] => return ()
  | rule :: rest => do
    Build.record (.classFix sheet rule.before rule.after)
    recordRules sheet rest

/-- Appends the restyled rules of one stylesheet; gives how many there are. -/
def restyleOne (host : View σ) (directory : Text) (mapping : Stylesheet.ClassMapping) :
    Build σ Nat := do
  let rules ← Build.ofExcept (Stylesheet.restyleSheet host (← Build.storage) directory mapping)
  recordRules mapping.sheet rules
  modify fun s => { s with sheet := rules.foldl (fun sheet rule => sheet.append rule.text) s.sheet }
  return rules.length

/-- Appends the restyled rules of stylesheets in order; gives how many there are. -/
def restyle (host : View σ) (directory : Text) : List Stylesheet.ClassMapping → Build σ Nat
  | [] => return 0
  | mapping :: rest => do
    let rules ← restyleOne host directory mapping
    let others ← restyle host directory rest
    return rules + others

end AddonBundle.Bundle
