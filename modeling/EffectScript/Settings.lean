import EffectScript.Machine

/-!
# Settings

The limits of a machine and whether its events are logged, with the errors that
stand in the way of reading them.
-/

namespace EffectScript

/-- How a machine is set up. -/
structure Settings where
  limits : Limits
  trace : Bool
deriving DecidableEq

/-- The settings where nothing else is said. -/
def Settings.standard : Settings := ⟨Limits.standard, false⟩

/-- The file with settings that is looked for next to a script. -/
def settingsFileName : String := "sable.toml"

/-- Which limit may not be zero. -/
inductive LimitField where
  | maxFrames
  | stackCapacity
deriving DecidableEq

/-- The key of a limit. -/
def LimitField.key : LimitField → String
  | .maxFrames => "max_frames"
  | .stackCapacity => "stack_capacity"

/-- Why settings cannot be used. -/
inductive SettingsError where
  | unreadable (path cause : String)
  | malformed (path : String)
  | zeroLimit (field : LimitField)
deriving DecidableEq

/-- The wording of an error. -/
def SettingsError.message : SettingsError → String
  | .unreadable path cause => "failed to read " ++ path ++ ": " ++ cause
  | .malformed path => "failed to parse " ++ path ++ ": not a settings document"
  | .zeroLimit field => "invalid configuration: " ++ field.key ++
      " must be at least 1"

/-- Refuses limits of zero. -/
def Settings.validate (settings : Settings) : Except SettingsError Settings :=
  if settings.limits.maxFrames = 0 then .error (.zeroLimit .maxFrames)
  else if settings.limits.stackCapacity = 0 then
    .error (.zeroLimit .stackCapacity)
  else .ok settings

end EffectScript
