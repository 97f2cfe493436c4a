/-!
Values that members hold. Objects and procedures are references into a store, so
that two of them are the same exactly if their references are equal; everything
else is compared by content.
-/
namespace TraitComposition

structure ObjectId where
  index : Nat
deriving DecidableEq, Inhabited

structure ProcedureId where
  index : Nat
deriving DecidableEq, Inhabited

/-! References are ordered by age. -/

instance : Ord ObjectId :=
  ⟨compareOn ObjectId.index⟩

instance : Std.TransOrd ObjectId :=
  inferInstanceAs (Std.TransCmp (compareOn ObjectId.index))

instance : Std.LawfulEqOrd ObjectId where
  eq_of_compare {left right} equal := by
    have same : compare left.index right.index = .eq := equal
    cases left
    cases right
    exact congrArg _ (Std.LawfulEqOrd.eq_of_compare same)

instance : Ord ProcedureId :=
  ⟨compareOn ProcedureId.index⟩

instance : Std.TransOrd ProcedureId :=
  inferInstanceAs (Std.TransCmp (compareOn ProcedureId.index))

instance : Std.LawfulEqOrd ProcedureId where
  eq_of_compare {left right} equal := by
    have same : compare left.index right.index = .eq := equal
    cases left
    cases right
    exact congrArg _ (Std.LawfulEqOrd.eq_of_compare same)

inductive Value where
  | undefined
  | null
  | boolean (flag : Bool)
  | number (amount : Float)
  | text (content : String)
  | list (items : List Value)
  | object (reference : ObjectId)
  | procedure (reference : ProcedureId)
deriving Inhabited

namespace Value

def typeName : Value → String
  | undefined => "undefined"
  | null => "null"
  | boolean _ => "boolean"
  | number _ => "number"
  | text _ => "string"
  | list _ => "list"
  | object _ => "object"
  | procedure _ => "function"

/-- Whether a value counts as present where a condition is asked for: zero, the
number that is not one and the empty text do not. -/
def isTruthy : Value → Bool
  | undefined | null => false
  | boolean flag => flag
  | number amount => amount != 0 && !amount.isNaN
  | text content => !content.isEmpty
  | list _ | object _ | procedure _ => true

def isUndefined : Value → Bool
  | undefined => true
  | _ => false

def asProcedure : Value → Option ProcedureId
  | procedure reference => some reference
  | _ => none

def asObject : Value → Option ObjectId
  | object reference => some reference
  | _ => none

def asText : Value → Option String
  | text content => some content
  | _ => none

def asNumber : Value → Option Float
  | number amount => some amount
  | _ => none

def asBoolean : Value → Option Bool
  | boolean flag => some flag
  | _ => none

def asList : Value → Option (List Value)
  | list items => some items
  | _ => none

def ofProcedure? : Option ProcedureId → Value
  | some reference => procedure reference
  | none => undefined

/-! Strict identity: references by identity, lists item by item, everything else
by content. Numbers follow the arithmetic comparison, so the number that is not
one differs from itself and the two zeros agree. -/

mutual
def same : Value → Value → Bool
  | undefined, undefined => true
  | null, null => true
  | boolean left, boolean right => left == right
  | number left, number right => left == right
  | text left, text right => left == right
  | list left, list right => sameItems left right
  | object left, object right => left == right
  | procedure left, procedure right => left == right
  | _, _ => false

def sameItems : List Value → List Value → Bool
  | [], [] => true
  | left :: lefts, right :: rights => left.same right && sameItems lefts rights
  | _, _ => false
end

@[simp] theorem same_procedure (left right : ProcedureId) :
    (procedure left).same (procedure right) = (left == right) := by
  simp [same]

@[simp] theorem same_object (left right : ObjectId) :
    (object left).same (object right) = (left == right) := by
  simp [same]

theorem same_procedure_iff {value : Value} {reference : ProcedureId} :
    value.same (procedure reference) = true ↔ value = procedure reference := by
  cases value <;> simp [same]

example : (list [undefined, text "a"]).same (list [undefined, text "a"]) = true := by
  simp [same, sameItems]

end Value

end TraitComposition
