import AddonBundle.Bundle.Run
import AddonBundle.Config.Allowlist
/-!
# Runs on a disk

A run as a configuration describes it: over directories of one disk, with the addons that the
configuration lists.
-/

namespace AddonBundle.Bundle

/-- The configuration for directories given by a caller, who may also list addons or name a file
that lists them. -/
def configFor (source output host : Text) (addons : List Setting) (addonsFile : Option Text) :
    Config.Checked Config :=
  Config.ofSettings
    [("source_root".toList, .text source), ("output_root".toList, .text output),
      ("host_root".toList, .text host), ("addons".toList, .list addons),
      ("addons_file".toList,
        match addonsFile with
        | some (c :: cs) => .text (c :: cs)
        | _ => .missing)]

/-- The settings of a configured run. -/
def settingsOf (config : Config) (addons : List Text) : Settings :=
  { addons, extensions := config.extensions, header := config.header, clean := config.clean }

/-- Runs the bundler on a disk as configured. -/
def runConfigured (cwd : List Text) (config : Config) (disk : Disk) :
    Except Failure Report × Session Disk :=
  match Config.resolveAddons cwd disk config with
  | .error failure => (.error failure, { storage := disk })
  | .ok addons =>
    run (Places.disk cwd config.source config.host config.output)
      (settingsOf config (addons.map CodePoint.toText)) { storage := disk }

end AddonBundle.Bundle
