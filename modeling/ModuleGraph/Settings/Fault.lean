import ModuleGraph.Error

/-!
# Faults of settings

Causes for which a program has no settings, and their texts.
-/

namespace ModuleGraph.Settings

/-- Why a value does not fit the setting it was given for. -/
inductive Misfit
  /-- The value is of another type. Values of some sources name their source. -/
  | wrongType (found expected : String) (origin : Option String)
  /-- The value, or a part of it, is refused for this reason. -/
  | refused (reason : String)
  deriving Repr, DecidableEq

/-- The text of a misfit at a key; the settings as a whole have the empty key. -/
def Misfit.text (key : String) : Misfit → String
  | wrongType found expected origin =>
    s!"invalid type: {found}, expected {expected} for key \x60{key}\x60" ++
      ((origin.map fun o => s!" in {o}").getD "")
  | refused reason => if key = "" then reason else s!"{reason} for key \x60{key}\x60"

inductive Fault
  /-- A document cannot be read as such. -/
  | malformed
  /-- The key of an override spells no path. -/
  | badKey (key : String)
  /-- There is no file where one has to be. -/
  | missingFile (path : String)
  /-- A file is there and cannot be read. -/
  | unreadable (reason : String)
  | misfit (key : String) (m : Misfit)
  /-- A value fits its type and is of no use. -/
  | unusable (e : InvalidSetting)
  deriving Repr, DecidableEq

namespace Fault

def chain : Fault → List String
  | malformed => ["malformed settings"]
  | badKey key => [s!"no setting key: {key}"]
  | missingFile path => [s!"configuration file \"{path}\" not found"]
  | unreadable reason => [reason]
  | misfit key m => [m.text key]
  | unusable e => (Error.setting e).chain

def text (f : Fault) : String := f.chain.headD ""

end Fault

end ModuleGraph.Settings
