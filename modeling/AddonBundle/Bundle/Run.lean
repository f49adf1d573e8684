import AddonBundle.Bundle.Addon
import AddonBundle.Bundle.Manifest
/-!
# Runs

A run bundles the addons of its settings in order, each in a phase of its own, then writes the
generated stylesheet, the catalogs and, last of all, the version record. The first failure ends it.
-/

namespace AddonBundle.Bundle

variable {σ : Type}

/-- What a run did. -/
structure Report where
  /-- The files of addons and the generated stylesheet, in the order written. -/
  written : List Text
  /-- The libraries copied. -/
  libraries : List Text
  languages : List Text
  version : CodeText
  /-- The generated stylesheet. -/
  sheet : FixedSheet
  trace : Trace
deriving Repr, DecidableEq

/-- The generated stylesheet. -/
def sheetFile : Text := "fix-hardcoded-classes.css".toList

/-- The directories that a clean run removes first. -/
def staleDirs : List Text :=
  [addonsDir, catalogsDir, Script.librariesDir]

/-- Removes entries one after the other. -/
def removeAll (output : View σ) : List Text → Build σ Unit
  | [] => return ()
  | path :: rest => do
    Build.write (output.remove path)
    removeAll output rest

/-- Bundles addons in order, each in a phase. A fault names the addon it arose in. -/
def bundleAddons (places : Places σ) (settings : Settings) : List Text → Build σ Unit
  | [] => return ()
  | addon :: rest => do
    Build.startPhase ("Addon: ".toList ++ addon)
    Build.always Build.closePhase
      (Build.mapFailure (Failure.inAddon addon) (bundleAddon places settings addon))
    bundleAddons places settings rest

/-- The closing message of a run. -/
def summary (addons : Nat) (report : Report) : Text :=
  "Ported ".toList ++ Text.ofNat addons ++ " addons, ".toList ++
    Text.ofNat report.libraries.length ++ " libraries, ".toList ++
    Text.ofNat report.sheet.rules.length ++ " fixed rules, ".toList ++
    Text.ofNat report.languages.length ++ " languages (upstream ".toList ++
    CodePoint.toText report.version ++ [')']

/-- The steps of a run. -/
def runSteps (places : Places σ) (settings : Settings) : Build σ Report := do
  if settings.clean then removeAll places.output staleDirs
  let count := settings.addons.length
  Build.log .info ("Porting ".toList ++ Text.ofNat count ++ " addons".toList)
  bundleAddons places settings settings.addons
  writeFile places.output sheetFile (← get).sheet.text
  Build.startPhase "Localization".toList
  let languages ← writeCatalogs places settings.addons
  modify Build.closePhase
  let version ← Build.ofExcept (readVersion places.source (← Build.storage))
  writeRecord places.output version languages
  let s ← get
  let report : Report :=
    { written := s.written, libraries := s.libraries, languages, version, sheet := s.sheet
      trace := s.trace }
  Build.log .success (summary count report)
  return report

/-- A session as a new run finds it: trace, log and catalogs are empty, while the libraries copied,
the rules generated and the files written by earlier runs are remembered. -/
def fresh (session : Session σ) : Session σ :=
  { session with trace := {}, log := [], catalogs := [] }

/-- Runs the bundler on a session. -/
def run (places : Places σ) (settings : Settings) (session : Session σ) :
    Except Failure Report × Session σ :=
  Build.exec (runSteps places settings) (fresh session)

end AddonBundle.Bundle
