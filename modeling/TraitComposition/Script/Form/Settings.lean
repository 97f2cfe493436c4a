import TraitComposition.Config.Document
import TraitComposition.Config.MissingFile
import TraitComposition.Script.Argument
import TraitComposition.Text.Hexadecimal

/-!
Forms for settings: where they come from and how they are combined.
-/
namespace TraitComposition.Script.Form

open Evaluation

def defaultConfig : Operation := fun _ _ => do
  return configValue {}

def strictConfig : Operation := fun _ _ => do
  return configValue .strict

def parsePolicy : Operation := fun scope phrases => do
  let policy ← conclude (ConflictPolicy.parse (← textAt scope phrases 0))
  return configValue { conflictPolicy := policy }

def overlayConfigs : Operation := fun scope phrases => do
  let config ← configAt scope phrases 0
  let other ← configAt scope phrases 1
  return configValue (config.overlay other)

def configDocument : Operation := fun scope phrases => do
  return .text (← configAt scope phrases 0).toDocument

def readConfig : Operation := fun scope phrases => do
  return configValue (← conclude (Config.read (← textAt scope phrases 0)))

def readConfigFile : Operation := fun scope phrases => do
  let digits ← textAt scope phrases 0
  return configValue (← conclude (Config.readBytes (Text.hexBytes? digits.toList)))

def readMissingConfigFile : Operation := fun scope phrases => do
  throw (Config.missingFile (← textAt scope phrases 0))

/-- Settings after the overrides of an environment, in which a variable is set if its
value is a text. -/
def configWithEnvironment : Operation := fun scope phrases => do
  let config ← configAt scope phrases 0
  let conflictPolicy := (← valueAt scope phrases 1).asText
  let materializeAccessors := (← valueAt scope phrases 2).asText
  let (result, config) := config.withEnvironment { conflictPolicy, materializeAccessors }
  conclude result
  return configValue config

def settingsForms : List (String × Operation) :=
  [("config_default", defaultConfig), ("config_strict", strictConfig),
    ("policy_parse", parsePolicy), ("config_merge", overlayConfigs),
    ("config_to_toml", configDocument), ("config_toml", readConfig),
    ("config_load", readConfigFile), ("config_load_missing", readMissingConfigFile),
    ("config_env", configWithEnvironment)]

end TraitComposition.Script.Form
