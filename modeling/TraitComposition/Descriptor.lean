import TraitComposition.Value

/-!
What a member is: a stored value or a pair of procedures that compute it, and two
flags. A patch is a descriptor of which only some fields are given.
-/
namespace TraitComposition

inductive Shape where
  | data (value : Value) (writable : Bool)
  | accessor (getter setter : Option ProcedureId)
deriving Inhabited

structure Descriptor where
  shape : Shape
  enumerable : Bool
  configurable : Bool
deriving Inhabited

namespace Descriptor

/-- The descriptor of a member that was simply stored: everything is allowed. -/
def ofValue (value : Value) : Descriptor :=
  ⟨.data value true, true, true⟩

def isAccessor (descriptor : Descriptor) : Bool :=
  match descriptor.shape with
  | .accessor .. => true
  | .data .. => false

def isData (descriptor : Descriptor) : Bool :=
  match descriptor.shape with
  | .data .. => true
  | .accessor .. => false

def isWritable (descriptor : Descriptor) : Bool :=
  match descriptor.shape with
  | .data _ writable => writable
  | .accessor .. => false

def value? (descriptor : Descriptor) : Option Value :=
  match descriptor.shape with
  | .data value _ => some value
  | .accessor .. => none

def method? (descriptor : Descriptor) : Option ProcedureId :=
  descriptor.value?.bind Value.asProcedure

def getter? (descriptor : Descriptor) : Option ProcedureId :=
  match descriptor.shape with
  | .accessor getter _ => getter
  | .data .. => none

def setter? (descriptor : Descriptor) : Option ProcedureId :=
  match descriptor.shape with
  | .accessor _ setter => setter
  | .data .. => none

def withValue (descriptor : Descriptor) (value : Value) : Descriptor :=
  match descriptor.shape with
  | .data _ writable => { descriptor with shape := .data value writable }
  | .accessor .. => descriptor

def same (left right : Descriptor) : Bool :=
  (match left.shape, right.shape with
    | .data leftValue leftWritable, .data rightValue rightWritable =>
        leftValue.same rightValue && leftWritable == rightWritable
    | .accessor leftGetter leftSetter, .accessor rightGetter rightSetter =>
        leftGetter == rightGetter && leftSetter == rightSetter
    | _, _ => false) &&
  left.enumerable == right.enumerable && left.configurable == right.configurable

theorem eq_of_same_method {descriptor : Descriptor} {method : ProcedureId}
    (equal : descriptor.same (.ofValue (.procedure method)) = true) :
    descriptor = .ofValue (.procedure method) := by
  rcases descriptor with ⟨value | _, enumerable, configurable⟩ <;>
    simp_all [same, ofValue, Value.same_procedure_iff]

/-- Whether a member that is not configurable may become `incoming`: nothing
changes, or the value of a writable member does, which may be locked with it. -/
def redefinable (existing incoming : Descriptor) : Bool :=
  existing.same incoming ||
    match existing.shape, incoming.shape with
    | .data _ true, .data .. =>
        existing.enumerable == incoming.enumerable && !incoming.configurable
    | _, _ => false

@[simp] theorem value?_ofValue (value : Value) : (ofValue value).value? = some value := rfl

@[simp] theorem method?_ofValue (value : Value) :
    (ofValue value).method? = value.asProcedure := rfl

theorem isData_iff {descriptor : Descriptor} :
    descriptor.isData = true ↔ ∃ value, descriptor.value? = some value := by
  unfold isData value?
  cases descriptor.shape <;> simp

theorem isAccessor_iff {descriptor : Descriptor} :
    descriptor.isAccessor = true ↔ descriptor.value? = none := by
  unfold isAccessor value?
  cases descriptor.shape <;> simp

theorem isWritable_iff {descriptor : Descriptor} :
    descriptor.isWritable = true ↔ ∃ value, descriptor.shape = .data value true := by
  rcases descriptor with ⟨⟨value, _ | _⟩ | ⟨getter, setter⟩, enumerable, configurable⟩ <;>
    simp [isWritable]

theorem isAccessor_eq_not_isData (descriptor : Descriptor) :
    descriptor.isAccessor = !descriptor.isData := by
  unfold isAccessor isData
  cases descriptor.shape <;> rfl

end Descriptor

structure Patch where
  value : Option Value := none
  writable : Option Bool := none
  getter : Option ProcedureId := none
  setter : Option ProcedureId := none
  enumerable : Option Bool := none
  configurable : Option Bool := none
deriving Inhabited

end TraitComposition
