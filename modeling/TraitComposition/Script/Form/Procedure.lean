import TraitComposition.Script.Argument

/-!
Forms that make and use procedures.
-/
namespace TraitComposition.Script.Form

open Evaluation

def createProcedure : Operation := fun scope phrases => do
  let label := (← valueAt scope phrases 0).asText
  let code ← closure scope (Phrase.part phrases 1)
  return .procedure (← ask (.createProcedure label code))

def call : Operation := fun scope phrases => do
  let procedure ← procedureAt scope phrases 0
  let receiver ← valueAt scope phrases 1
  let arguments ← listAt scope phrases 2
  ask (.call procedure receiver arguments)

def prototype : Operation := fun scope phrases => do
  return .object (← ask (.prototypeOf (← procedureAt scope phrases 0)))

def bases : Operation := fun scope phrases => do
  let procedure ← procedureAt scope phrases 0
  match (← getStore).bases? procedure with
  | some bases => return .list [procedures bases.constructors, objects bases.prototypes]
  | none => return .undefined

def hookOf (procedure : ProcedureId) : Evaluation Hook := do
  match ((← getStore).procedure procedure).hook with
  | some hook => return hook
  | none => complain "no install hook"

def withInstall : Operation := fun scope phrases => do
  let procedure ← procedureAt scope phrases 0
  let hook ← hookOf (← procedureAt scope phrases 1)
  return .procedure (← ask (.withHook procedure hook))

def withMeta : Operation := fun scope phrases => do
  let procedure ← procedureAt scope phrases 0
  let value ← valueAt scope phrases 1
  return .procedure (← ask (.withMark procedure (.value value)))

def metaValue : Operation := fun scope phrases => do
  let procedure ← procedureAt scope phrases 0
  match ((← getStore).procedure procedure).mark with
  | some (.value value) => return value
  | _ => return .undefined

def runHook : Operation := fun scope phrases => do
  let procedure ← procedureAt scope phrases 0
  let target ← objectAt scope phrases 1
  let name ← textAt scope phrases 2
  ask (.install (← hookOf procedure) target name)
  return .undefined

def constructible : Operation := fun scope phrases => do
  let prototype ← objectAt scope phrases 1
  let constructors := (← listAt scope phrases 2).filterMap Value.asProcedure
  let prototypes ← objectsAt scope phrases 3
  let code ← closure scope (Phrase.part phrases 0)
  return .procedure (← ask (.createConstructible code prototype ⟨constructors, prototypes⟩))

def procedureForms : List (String × Operation) :=
  [("fn", createProcedure), ("call", call), ("prototype", prototype), ("bases", bases),
    ("with_install", withInstall), ("with_meta", withMeta), ("meta", metaValue),
    ("run_hook", runHook), ("constructor", constructible)]

end TraitComposition.Script.Form
