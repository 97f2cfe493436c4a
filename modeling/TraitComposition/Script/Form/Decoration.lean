import TraitComposition.Script.Form.Procedure

/-!
Forms that make decorators and advice.
-/
namespace TraitComposition.Script.Form

open Evaluation

def required : Operation := fun _ _ => return .procedure Store.requiredMarker

def decorator : Operation := fun scope phrases => do
  let code ← closure scope (Phrase.part phrases 0)
  let direct := (← valueAt scope phrases 1).asProcedure
  return .procedure (← ask (.createDecorator (.code code) direct))

def retag : Operation := fun scope phrases => do
  let procedure ← procedureAt scope phrases 0
  match scope.hook with
  | some hook => return .procedure (← ask (.withHook procedure hook))
  | none => complain "no install running"

def property : Operation := fun scope phrases => do
  let patch ← patchAt scope phrases 0
  return .procedure (← ask (.createDecorator (.patch patch) none))

def aliasOf : Operation := fun scope phrases => do
  let source : AliasSource := match ← valueAt scope phrases 0 with
    | .text name => .member name
    | trait => .trait trait
  let member := (← valueAt scope phrases 1).asText
  return .procedure (← ask (.createAlias source member))

/-! ### Advice -/

def before : Operation := fun scope phrases => do
  let code ← closure scope (Phrase.part phrases 0)
  return .procedure (← ask (.createAdvice (.before code)))

def after : Operation := fun scope phrases => do
  let code ← closure scope (Phrase.part phrases 0)
  let advice ← ask (.createProcedure (some "after") code)
  return .procedure (← ask (.createAdvice (.after advice)))

def notWoven : Fault :=
  .thrown "driver: weave did not yield a function"

def around : Operation := fun scope phrases => do
  let code ← closure scope (Phrase.part phrases 0)
  return .procedure (← ask (.createAdvice (.around code notWoven)))

def aspect : Operation := fun scope phrases => do
  let advice ← valueAt scope phrases 1
  let code ← closure { scope with advice } (Phrase.part phrases 0)
  return .procedure (← ask (.createAdvice (.around code notWoven)))

def weaveAnswer (weave : Weave) : List Value :=
  [.ofProcedure? weave.root, count weave.depth]

def weave : Operation := fun scope phrases => do
  let value ← valueAt scope phrases 0
  return .list (weaveAnswer ((← getStore).weaveOf (some value)))

def stack : Operation := fun scope phrases => do
  let current ← valueAt scope phrases 0
  let incoming ← valueAt scope phrases 1
  let store ← getStore
  let stacked := store.stackWeaves (store.weaveOf (some current)) (store.weaveOf (some incoming))
  let built ← ask (.build stacked)
  return .list (weaveAnswer stacked ++ [.ofProcedure? built])

def decorationForms : List (String × Operation) :=
  [("required", required), ("decorator", decorator), ("retag", retag), ("hook_retag", retag),
    ("property", property), ("from", aliasOf), ("before", before), ("after", after),
    ("around", around), ("aspect", aspect), ("weave", weave), ("stack", stack)]

end TraitComposition.Script.Form
