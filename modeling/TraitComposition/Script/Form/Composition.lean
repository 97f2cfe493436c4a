import TraitComposition.DebugText
import TraitComposition.Flattening
import TraitComposition.Script.Form.Inspection

/-!
Forms that flatten, merge and compose sources.
-/
namespace TraitComposition.Script.Form

open Evaluation

/-! ### Flattening -/

def validate : Operation := fun scope phrases => do
  let sources ← listAt scope phrases 0
  let offset ← countAt scope phrases 1
  conclude (Sources.validate sources offset)
  return .undefined

def constructors : Operation := fun scope phrases => do
  let sources ← listAt scope phrases 0
  return procedures ((← getStore).constructors sources)

def prototypes : Operation := fun scope phrases => do
  let sources ← listAt scope phrases 0
  return objects (← ask (.prototypes sources))

def inChain : Operation := fun scope phrases => do
  let method ← valueAt scope phrases 0
  let name ← textAt scope phrases 1
  let chain ← objectsAt scope phrases 2
  let store ← getStore
  return .boolean (!method.isUndefined && store.chainHolds chain name method)

def inheritedBy : Operation := fun scope phrases => do
  let method ← valueAt scope phrases 0
  let name ← textAt scope phrases 1
  let object ← objectAt scope phrases 2
  return .boolean ((← getStore).inherits object name method)

def delegate : Operation := fun scope phrases => do
  return .object (← ask (.delegate (← valueAt scope phrases 0)))

/-! ### Merging -/

def mixin : Operation := fun scope phrases => do
  let target ← objectAt scope phrases 0
  let sources ← listAt scope phrases 1
  let definer ← ask (.definerFor (← valueAt scope phrases 2))
  let conflicts ← ask (.mixin target sources definer)
  return .list (conflicts.map fun conflict => .list (conflictItems conflict))

def definer : Operation := fun scope phrases => do
  match ← ask (.definerFor (← valueAt scope phrases 0)) with
  | .raw => return .text "raw"
  | .custom procedure => return .procedure procedure

def defineThroughDefiner : Operation := fun scope phrases => do
  let source ← valueAt scope phrases 0
  let object ← objectAt scope phrases 1
  let name ← textAt scope phrases 2
  let descriptor ← descriptorAt scope phrases 3 name
  let definer ← ask (.definerFor source)
  ask (.defineThrough definer object name descriptor)
  return .undefined

/-! ### Composers -/

def registerComposer : Operation := fun scope phrases => do
  let name ← textAt scope phrases 0
  let config ← configAt scope phrases 1
  let state ← getState
  let composer : Composer := ⟨config, .collector name state.serial⟩
  setState { state with
    composers := (name, composer) :: state.composers
    serial := state.serial + 1 }
  return .list [configValue config, debugText (DebugText.composer composer)]

def compose : Operation := fun scope phrases => do
  let composer ← composerAt scope phrases 0
  let sources ← listAt scope phrases 1
  return .procedure (← ask (.compose composer sources))

def create : Operation := fun scope phrases => do
  let composer ← composerAt scope phrases 0
  let base ← valueAt scope phrases 1
  let sources ← listAt scope phrases 2
  return .object (← ask (.create composer base sources))

def mixinInto : Operation := fun scope phrases => do
  let composer ← composerAt scope phrases 0
  let target ← objectAt scope phrases 1
  let sources ← listAt scope phrases 2
  return .object (← ask (.mixinInto composer target sources))

def conflictsFor (store : Store) (observer : Observer) (start : Nat) : List Conflict :=
  (store.journal.extract start).toList.filterMap fun
    | .conflict told conflict => if told = observer then some conflict else none
    | .note _ => none

def collected : Operation := fun scope phrases => do
  let composer ← composerNamed (← textAt scope phrases 0)
  let store ← getStore
  let conflicts := conflictsFor store composer.observer 0
  return .list [count conflicts.length, .boolean conflicts.isEmpty,
    texts (conflicts.map (·.member)),
    .list (conflicts.map fun conflict => .list (conflictItems conflict)),
    debugText (DebugText.listed (conflicts.map (DebugText.conflict store)))]

def errorEntry (store : Store) (conflict : Conflict) : Value :=
  .list [debugText conflict.message, debugText conflict.member,
    debugText (DebugText.procedure store conflict.existing),
    debugText (DebugText.procedure store conflict.incoming)]

def errors : Operation := fun _ _ => do
  let state ← getState
  let store ← getStore
  setState { state with errorsRead := store.journal.size }
  return .list ((conflictsFor store .errorLog state.errorsRead).map (errorEntry store))

/-! ### Composite types -/

def construct : Operation := fun scope phrases => do
  let (_, type) ← compositeAt scope phrases 0
  let arguments ← listAt scope phrases 1
  return .object (← ask (.construct type arguments))

def extend : Operation := fun scope phrases => do
  let (_, type) ← compositeAt scope phrases 0
  let sources ← listAt scope phrases 1
  return .procedure (← ask (.extend type sources))

def defineThroughType : Operation := fun scope phrases => do
  let (reference, type) ← compositeAt scope phrases 0
  let object ← objectAt scope phrases 1
  let name ← textAt scope phrases 2
  let descriptor ← descriptorAt scope phrases 3 name
  let current := ((← getStore).composite reference).getD type
  let definer : Definer := match current.definer with
    | some procedure => .custom procedure
    | none => .raw
  ask (.defineThrough definer object name descriptor)
  return .undefined

def setDefiner : Operation := fun scope phrases => do
  let (reference, _) ← compositeAt scope phrases 0
  let definer ← procedureAt scope phrases 1
  ask (.setDefiner reference definer)
  return .undefined

def isInstance : Operation := fun scope phrases => do
  let (_, type) ← compositeAt scope phrases 0
  let object ← objectAt scope phrases 1
  return .boolean ((← getStore).isPrototypeOf type.prototype object)

def typeInfo : Operation := fun scope phrases => do
  let (_, type) ← compositeAt scope phrases 0
  return .list [.object type.prototype, procedures type.bases.constructors,
    objects type.bases.prototypes, debugText (DebugText.compositeType (← getStore) type)]

def compositionForms : List (String × Operation) :=
  [("validate", validate), ("constructors", constructors), ("prototypes", prototypes),
    ("in_chain", inChain), ("inherited_by", inheritedBy), ("delegate", delegate),
    ("mixin", mixin), ("definer", definer), ("definer_define", defineThroughDefiner),
    ("composer", registerComposer), ("compose", compose), ("create", create),
    ("mixin_into", mixinInto), ("conflicts", collected), ("errors", errors),
    ("construct", construct), ("extend", extend), ("type_define", defineThroughType),
    ("set_definer", setDefiner), ("is_instance", isInstance), ("type_info", typeInfo)]

end TraitComposition.Script.Form
