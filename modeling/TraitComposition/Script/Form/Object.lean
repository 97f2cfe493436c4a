import TraitComposition.Script.Argument

/-!
Forms that make, read and change objects.
-/
namespace TraitComposition.Script.Form

open Evaluation

def evaluateEntries (scope : Scope) (phrases : List Phrase) :
    Evaluation (List (String × Value)) :=
  phrases.mapM fun entry => do
    let name ← textAt scope entry.items 0
    let value ← valueAt scope entry.items 1
    return (name, value)

def createObject : Operation := fun scope phrases => do
  let parent := (← valueAt scope phrases 0).asObject
  let entries ← evaluateEntries scope (Phrase.part phrases 1).items
  let object ← ask (.createObject parent)
  entries.forM fun entry => ask (.insert object entry.1 entry.2)
  return .object object

/-! ### Reading -/

def reading (answer : Store → ObjectId → Value) : Operation := fun scope phrases => do
  let object ← objectAt scope phrases 0
  return answer (← getStore) object

def readingMember (answer : Store → ObjectId → String → Value) : Operation :=
  fun scope phrases => do
    let object ← objectAt scope phrases 0
    let name ← textAt scope phrases 1
    return answer (← getStore) object name

def optionalDescriptor (descriptor : Option Descriptor) : Value :=
  optional (descriptor.map descriptorValue)

def classification (descriptor : Option Descriptor) : Value :=
  .list [.boolean (descriptor.any Descriptor.isAccessor),
    .boolean (descriptor.any Descriptor.isData),
    optional (descriptor.bind Descriptor.value?),
    .ofProcedure? (descriptor.bind Descriptor.method?),
    .ofProcedure? (descriptor.bind Descriptor.getter?),
    .ofProcedure? (descriptor.bind Descriptor.setter?)]

def lookupAnswer (found : Option (ObjectId × Descriptor)) : Value :=
  optional (found.map fun level => .list [.object level.1, descriptorValue level.2])

def dump (store : Store) (object : ObjectId) : Value :=
  .list <| (store.ancestry object).map fun level =>
    .list [.object level, .list <| (store.members level).entries.map fun entry =>
      .list [.text entry.1, descriptorValue entry.2]]

def isPrototypeOf : Operation := fun scope phrases => do
  let object ← objectAt scope phrases 0
  let other ← objectAt scope phrases 1
  return .boolean ((← getStore).isPrototypeOf object other)

def read : Operation := fun scope phrases => do
  let object ← objectAt scope phrases 0
  let name ← textAt scope phrases 1
  ask (.read object name)

def invoke : Operation := fun scope phrases => do
  let object ← objectAt scope phrases 0
  let name ← textAt scope phrases 1
  let arguments ← listAt scope phrases 2
  ask (.invoke object name arguments)

/-! ### Changing -/

def assign : Operation := fun scope phrases => do
  let object ← objectAt scope phrases 0
  let name ← textAt scope phrases 1
  let value ← valueAt scope phrases 2
  ask (.assign object name value)
  return .undefined

def insert : Operation := fun scope phrases => do
  let object ← objectAt scope phrases 0
  let name ← textAt scope phrases 1
  let value ← valueAt scope phrases 2
  ask (.insert object name value)
  return .undefined

def define : Operation := fun scope phrases => do
  let object ← objectAt scope phrases 0
  let name ← textAt scope phrases 1
  let descriptor ← descriptorAt scope phrases 2 name
  ask (.define object name descriptor)
  return .undefined

def delete : Operation := fun scope phrases => do
  let object ← objectAt scope phrases 0
  let name ← textAt scope phrases 1
  return .boolean (← ask (.delete object name))

def remove : Operation := fun scope phrases => do
  let object ← objectAt scope phrases 0
  let name ← textAt scope phrases 1
  return count (← ask (.remove object name))

/-! ### Descriptors -/

def encodeDescriptor : Operation := fun scope phrases => do
  let descriptor ← descriptorAt scope phrases 0 ""
  return .object (← ask (.encode descriptor))

def decodeDescriptor : Operation := fun scope phrases => do
  let member ← textAt scope phrases 0
  let object ← objectAt scope phrases 1
  return descriptorValue (← ask (.decode member object))

def encodePatch : Operation := fun scope phrases => do
  return .object (← ask (.encodePatch (← patchAt scope phrases 0)))

def completePatch : Operation := fun scope phrases => do
  let member ← textAt scope phrases 0
  let patch ← patchAt scope phrases 1
  return descriptorValue (← ask (.completePatch member patch))

def objectForms : List (String × Operation) :=
  [("obj", createObject),
    ("proto", reading fun store object => optional ((store.parent object).map .object)),
    ("has", readingMember fun store object name => .boolean (store.has object name)),
    ("has_own", readingMember fun store object name => .boolean (store.hasOwn object name)),
    ("own_names", reading fun store object => texts (store.ownNames object)),
    ("keys", reading fun store object => texts (store.keys object)),
    ("names", reading fun store object => texts (store.enumerableNames object)),
    ("data_value", readingMember fun store object name =>
      optional (store.dataValue? object name)),
    ("get", read), ("set", assign), ("insert", insert), ("delete", delete), ("remove", remove),
    ("invoke", invoke), ("is_proto_of", isPrototypeOf),
    ("own_desc", readingMember fun store object name =>
      optionalDescriptor (store.ownDescriptor? object name)),
    ("get_desc", readingMember fun store object name =>
      optionalDescriptor (store.descriptor? object name)),
    ("lookup", readingMember fun store object name => lookupAnswer (store.lookup object name)),
    ("classify", readingMember fun store object name =>
      classification (store.descriptor? object name)),
    ("define", define), ("dump", reading dump), ("to_object", encodeDescriptor),
    ("from_object", decodeDescriptor), ("patch_object", encodePatch),
    ("patch_desc", completePatch)]

end TraitComposition.Script.Form
