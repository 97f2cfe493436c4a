import TraitComposition.DebugText
import TraitComposition.Script.Argument

/-!
Forms that look at values.
-/
namespace TraitComposition.Script.Form

open Evaluation

def typeName : Operation := fun scope phrases => do
  return .text (← valueAt scope phrases 0).typeName

def kind : Operation := fun scope phrases => do
  let value ← valueAt scope phrases 0
  return .list [.text value.typeName, .boolean value.isUndefined,
    .boolean value.asProcedure.isSome, .boolean value.isTruthy]

def views : Operation := fun scope phrases => do
  let value ← valueAt scope phrases 0
  return .list [optional (value.asProcedure.map .procedure), optional (value.asObject.map .object),
    optional (value.asText.map .text), optional (value.asNumber.map .number),
    optional (value.asBoolean.map .boolean), optional (value.asList.map .list)]

def same : Operation := fun scope phrases => do
  let left ← valueAt scope phrases 0
  let right ← valueAt scope phrases 1
  return .boolean (left.same right)

def debugText (content : String) : Value :=
  .text (DebugText.mask content)

def debug : Operation := fun scope phrases => do
  let value ← valueAt scope phrases 0
  return debugText (DebugText.value (← getStore) value)

def debugWeave : Operation := fun scope phrases => do
  let value ← valueAt scope phrases 0
  let store ← getStore
  return debugText (DebugText.weave store (store.weaveOf (some value)))

def debugHook : Operation := fun scope phrases => do
  let procedure ← procedureAt scope phrases 0
  return debugText (DebugText.hook ((← getStore).procedure procedure).hook)

def inspectionForms : List (String × Operation) :=
  [("type", typeName), ("kind", kind), ("as", views), ("same", same), ("debug", debug),
    ("debug_weave", debugWeave), ("debug_hook", debugHook)]

end TraitComposition.Script.Form
