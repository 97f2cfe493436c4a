/-!
Everything that can go wrong, as causes. A fault that a procedure raises without
knowing the name it is bound to leaves the member open; whoever called it under a
name fills the name in.
-/
namespace TraitComposition

inductive Fault where
  | invalidInput (position : Nat) (found : String)
  | unresolvedConflict (member : String)
  | unfulfilledRequirement (member : Option String)
  | decoratorNotApplied (member : Option String)
  | aliasUnavailable (source target : String)
  | notCallable (member : String)
  | readOnly (member : String)
  | notConfigurable (member : String)
  | invalidDescriptor (member reason : String)
  | invalidConfig (explanation : String)
  | thrown (explanation : String)
deriving DecidableEq, Inhabited

def conflictMessage (member : String) : String :=
  "conflicted method `" ++ member ++
    "`, final composer must explicitly override with correct method"

namespace Fault

def kind : Fault → String
  | invalidInput .. => "InvalidCompositionInput"
  | unresolvedConflict _ => "UnresolvedMemberConflict"
  | unfulfilledRequirement _ => "UnfulfilledRequirement"
  | decoratorNotApplied _ => "DecoratorNotApplied"
  | aliasUnavailable .. => "AliasResolutionFailure"
  | notCallable _ => "NotCallable"
  | readOnly _ => "ReadOnlyMember"
  | notConfigurable _ => "NotConfigurable"
  | invalidDescriptor .. => "InvalidDescriptor"
  | invalidConfig _ => "InvalidConfig"
  | thrown _ => "Thrown"

def message : Fault → String
  | invalidInput position found =>
      "compose arguments must be functions or objects (argument " ++ toString position ++
        " was " ++ found ++ ")"
  | unresolvedConflict member => conflictMessage member
  | unfulfilledRequirement member =>
      "member `" ++ member.getD "<anonymous>" ++
        "` is required and no implementation has been provided"
  | decoratorNotApplied member =>
      "decorator not applied for member `" ++ member.getD "<anonymous>" ++ "`"
  | aliasUnavailable source target =>
      "source method `" ++ source ++ "` was not available to be renamed to `" ++ target ++ "`"
  | notCallable member => "member `" ++ member ++ "` is not callable"
  | readOnly member => "cannot assign to read-only member `" ++ member ++ "`"
  | notConfigurable member => "cannot redefine non-configurable member `" ++ member ++ "`"
  | invalidDescriptor member reason =>
      "invalid descriptor for `" ++ member ++ "`: " ++ reason
  | invalidConfig explanation => "invalid configuration: " ++ explanation
  | thrown explanation => explanation

/-- The member a fault is about. An alias is about the name it was to get. -/
def member : Fault → Option String
  | unresolvedConflict member | notCallable member | readOnly member
  | notConfigurable member | invalidDescriptor member _ | aliasUnavailable _ member =>
      some member
  | unfulfilledRequirement member | decoratorNotApplied member => member
  | invalidInput .. | invalidConfig _ | thrown _ => none

def withMember (name : String) : Fault → Fault
  | unfulfilledRequirement none => unfulfilledRequirement (some name)
  | decoratorNotApplied none => decoratorNotApplied (some name)
  | fault => fault

theorem withMember_of_member {fault : Fault} {known name : String}
    (named : fault.member = some known) : fault.withMember name = fault := by
  cases fault <;> simp_all [member, withMember]

example : (decoratorNotApplied none).message =
    "decorator not applied for member `<anonymous>`" := by
  decide

end Fault

end TraitComposition
