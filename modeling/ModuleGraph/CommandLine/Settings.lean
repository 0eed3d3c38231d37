import ModuleGraph.CommandLine
import ModuleGraph.Settings

/-!
# Settings of a command line

The layers a run of the program has: the settings file of the current directory if it is there, the
files named by options, the environment, and the options that set a setting.
-/

namespace ModuleGraph.CommandLine.Options

open Settings (Layers Source)

/-- The settings file that need not be named. -/
def settingsFile : String := "modgit.toml"

def sources (o : Options) : List Source :=
  .file settingsFile false :: o.configs.map (.file · true)

def layers (o : Options) : Layers where
  sources := o.sources
  program := some "MODGIT"
  overrides := o.overrides.map fun s => (s.1, .text s.2)

end ModuleGraph.CommandLine.Options
