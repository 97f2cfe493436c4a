import TraitComposition.Fault
import TraitComposition.Text.Blank

/-!
Settings of a composer, and how environment variables override them.
-/
namespace TraitComposition

/-- What to do about a conflict that nobody resolved: report it, or report it and
fail the composition. -/
inductive ConflictPolicy where
  | warn
  | fail
deriving DecidableEq, Inhabited

structure Config where
  conflictPolicy : ConflictPolicy := .warn
  /-- Whether new instances own the accessors they inherit. -/
  materializeAccessors : Bool := true
deriving DecidableEq, Inhabited

namespace ConflictPolicy

def word : ConflictPolicy → String
  | warn => "warn"
  | fail => "fail"

def ofWord? (word : String) : Option ConflictPolicy :=
  if word = "warn" then some warn
  else if word = "fail" then some fail
  else none

def parse (content : String) : Except Fault ConflictPolicy :=
  let word := Text.lowerBasic (Text.trim content)
  match ofWord? word with
  | some policy => .ok policy
  | none => .error <| .invalidConfig <|
      "unknown conflict policy `" ++ word ++ "` (expected `warn` or `fail`)"

theorem ofWord?_word (policy : ConflictPolicy) : ofWord? policy.word = some policy := by
  cases policy <;> decide

end ConflictPolicy

def flagOfWord? (word : String) : Option Bool :=
  if word ∈ ["1", "true", "yes", "on"] then some true
  else if word ∈ ["0", "false", "no", "off"] then some false
  else none

/-- Reads the value of a yes-or-no variable regardless of surrounding blanks and
of case. -/
def parseFlag (variableName content : String) : Except Fault Bool :=
  let word := Text.lowerBasic (Text.trim content)
  match flagOfWord? word with
  | some flag => .ok flag
  | none => .error <| .invalidConfig <|
      variableName ++ " must be a boolean, got `" ++ word ++ "`"

structure Environment where
  conflictPolicy : Option String := none
  materializeAccessors : Option String := none
deriving Inhabited

namespace Config

def strict : Config :=
  { conflictPolicy := .fail }

def overlay (config other : Config) : Config where
  conflictPolicy :=
    if other.conflictPolicy = ({} : Config).conflictPolicy then config.conflictPolicy
    else other.conflictPolicy
  materializeAccessors :=
    if other.materializeAccessors = ({} : Config).materializeAccessors then
      config.materializeAccessors
    else other.materializeAccessors

/-- Applies the overrides of an environment one after the other, the policy first.
A rejected value ends it; what was applied before stays applied. -/
def applyEnvironment (environment : Environment) : ExceptT Fault (StateM Config) Unit := do
  if let some content := environment.conflictPolicy then
    let policy ← ConflictPolicy.parse content
    modify fun config => { config with conflictPolicy := policy }
  if let some content := environment.materializeAccessors then
    let flag ← parseFlag "MOSAIC_MATERIALIZE_ACCESSORS" content
    modify fun config => { config with materializeAccessors := flag }

/-- Applies an environment; the second component is the configuration afterwards,
also when a value was rejected. -/
def withEnvironment (config : Config) (environment : Environment) :
    Except Fault Unit × Config :=
  (applyEnvironment environment).run.run config

example : strict.overlay { materializeAccessors := false } = ⟨.fail, false⟩ := by decide

end Config

end TraitComposition
