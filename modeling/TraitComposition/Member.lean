import TraitComposition.Action

/-!
Members of objects: reading runs getters, assigning runs setters, and both treat
the object they start from as the receiver.
-/
namespace TraitComposition

variable {σ : Type} (meaning : Meaning σ)

namespace Member

def read (object : ObjectId) (name : String) : Action σ Value := do
  match ((← Action.getStore).descriptor? object name).map Descriptor.shape with
  | none | some (.accessor none _) => return .undefined
  | some (.data value _) => return value
  | some (.accessor (some getter) _) =>
      Action.naming name (meaning.call getter (.object object) [])

/-- Assigns a member. An own data member takes the value in its place; an inherited
one is hidden by a new own member; an accessor runs its setter. -/
def assign (object : ObjectId) (name : String) (value : Value) : Action σ Unit := do
  match (← Action.getStore).lookup object name with
  | none => Action.change (·.insert object name value)
  | some (owner, descriptor) =>
      match descriptor.shape with
      | .accessor _ (some setter) =>
          let _ ← Action.naming name (meaning.call setter (.object object) [value])
      | .accessor _ none | .data _ false => throw (.readOnly name)
      | .data _ true =>
          if owner = object then
            Action.change (·.storeMember object name (descriptor.withValue value))
          else
            Action.change (·.insert object name value)

def invoke (object : ObjectId) (name : String) (arguments : List Value) : Action σ Value := do
  match ← read meaning object name with
  | .procedure procedure =>
      Action.naming name (meaning.call procedure (.object object) arguments)
  | _ => throw (.notCallable name)

def define (object : ObjectId) (name : String) (descriptor : Descriptor) : Action σ Unit := do
  if (← Action.getStore).accepts object name descriptor then
    Action.change (·.storeMember object name descriptor)
  else
    throw (.notConfigurable name)

end Member

/-! ### Descriptors as objects -/

def Descriptor.fields (descriptor : Descriptor) : List (String × Value) :=
  (match descriptor.shape with
    | .data value writable => [("value", value), ("writable", .boolean writable)]
    | .accessor getter setter =>
        [("get", .ofProcedure? getter), ("set", .ofProcedure? setter)]) ++
  [("enumerable", .boolean descriptor.enumerable),
    ("configurable", .boolean descriptor.configurable)]

def Patch.fields (patch : Patch) : List (String × Value) :=
  [("value", patch.value), ("writable", patch.writable.map .boolean),
    ("get", patch.getter.map .procedure), ("set", patch.setter.map .procedure),
    ("enumerable", patch.enumerable.map .boolean),
    ("configurable", patch.configurable.map .boolean)].filterMap fun field =>
      field.2.map fun value => (field.1, value)

def Store.encode (fields : List (String × Value)) (store : Store) : ObjectId × Store :=
  let (object, store) := store.createObject none
  (object, store.insertAll object fields)

namespace Descriptor

def encode (descriptor : Descriptor) : Action σ ObjectId :=
  Action.edit (Store.encode descriptor.fields)

def readField (object : ObjectId) (key : String) : Action σ (Option Value) := do
  if (← Action.getStore).has object key then
    return some (← Member.read meaning object key)
  else
    return none

def readFlag (object : ObjectId) (key : String) : Action σ (Option Bool) := do
  return (← readField meaning object key).map Value.isTruthy

def readProcedure (member : String) (object : ObjectId) (key : String) :
    Action σ (Option (Option ProcedureId)) := do
  match ← readField meaning object key with
  | none => return none
  | some .undefined => return some none
  | some (.procedure procedure) => return some (some procedure)
  | some other => throw <| .invalidDescriptor member <|
      "`" ++ key ++ "` must be a function, found " ++ other.typeName

def shapeOfFields (member : String) (value : Option Value) (writable : Option Bool)
    (getter setter : Option (Option ProcedureId)) : Except Fault Shape :=
  if getter.isSome || setter.isSome then
    if value.isSome || writable.isSome then
      .error <| .invalidDescriptor member
        "cannot both specify accessors and a value or writable attribute"
    else
      .ok (.accessor getter.join setter.join)
  else
    .ok (.data (value.getD .undefined) (writable.getD false))

def decode (member : String) (object : ObjectId) : Action σ Descriptor := do
  let value ← readField meaning object "value"
  let writable ← readFlag meaning object "writable"
  let getter ← readProcedure meaning member object "get"
  let setter ← readProcedure meaning member object "set"
  let shape ← Action.ofExcept (shapeOfFields member value writable getter setter)
  let enumerable ← readFlag meaning object "enumerable"
  let configurable ← readFlag meaning object "configurable"
  return ⟨shape, enumerable.getD false, configurable.getD false⟩

end Descriptor

namespace Patch

def encode (patch : Patch) : Action σ ObjectId :=
  Action.edit (Store.encode patch.fields)

/-- The patch as a descriptor in which every missing field has its default. -/
def complete (member : String) (patch : Patch) : Action σ Descriptor := do
  Descriptor.decode meaning member (← patch.encode)

end Patch

end TraitComposition
