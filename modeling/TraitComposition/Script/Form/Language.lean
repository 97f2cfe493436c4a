import TraitComposition.Script.Argument
import TraitComposition.Text.Hexadecimal

/-!
Forms of the language itself: literals, scope, control and faults.
-/
namespace TraitComposition.Script.Form

open Evaluation

def evaluateAll (scope : Scope) (phrases : List Phrase) : Evaluation (List Value) :=
  phrases.mapM fun phrase => phrase.value scope

/-! ### Literals and scope -/

def undefinedValue : Operation := fun _ _ => return .undefined

def bitsOfText (content : List Char) : Option Nat :=
  let digits := match content with
    | '+' :: rest => rest
    | _ => content
  if digits.isEmpty then none
  else (Text.hexNumber? digits).filter (· < Nat.pow 2 64)

def bits : Operation := fun scope phrases => do
  match bitsOfText (← textAt scope phrases 0).toList with
  | some bits => return .number (.ofBits (.ofNat bits))
  | none => complain "bad bits"

def list : Operation := fun scope phrases => do
  return .list (← evaluateAll scope phrases)

def register : Operation := fun scope phrases => do
  let name ← textAt scope phrases 0
  match (← getState).registers.lookup name with
  | some value => return value
  | none => complain ("unbound " ++ name)

def receiver : Operation := fun scope _ => return scope.receiver
def arguments : Operation := fun scope _ => return .list scope.arguments
def base : Operation := fun scope _ => return scope.base
def advice : Operation := fun scope _ => return scope.advice
def target : Operation := fun scope _ => return scope.target
def name : Operation := fun scope _ => return scope.name

def argument : Operation := fun scope phrases => do
  return optional scope.arguments[← countAt scope phrases 0]?

/-! ### Control -/

def sequence : Operation := fun scope phrases => do
  return (← evaluateAll scope phrases).getLastD .undefined

def condition : Operation := fun scope phrases => do
  if (← valueAt scope phrases 0).isTruthy then
    valueAt scope phrases 1
  else
    valueAt scope phrases 2

def log : Operation := fun scope phrases => do
  ask (.note (← valueAt scope phrases 0))
  return .undefined

def partOfText : Value → String
  | .text content => content
  | value => value.typeName

def concatenate : Operation := fun scope phrases => do
  return .text (String.join ((← evaluateAll scope phrases).map partOfText))

/-! ### Faults -/

def throwText : Operation := fun scope phrases => do
  throw (.thrown (← textAt scope phrases 0))

def faultOfKind (scope : Scope) (phrases : List Phrase) (kind : String)
    (content : Option String) : Evaluation Fault := do
  let given := content.getD ""
  match kind with
  | "InvalidCompositionInput" => return .invalidInput (← countAt scope phrases 2) given
  | "UnresolvedMemberConflict" => return .unresolvedConflict given
  | "UnfulfilledRequirement" => return .unfulfilledRequirement content
  | "DecoratorNotApplied" => return .decoratorNotApplied content
  | "AliasResolutionFailure" => return .aliasUnavailable given (← textAt scope phrases 2)
  | "NotCallable" => return .notCallable given
  | "ReadOnlyMember" => return .readOnly given
  | "NotConfigurable" => return .notConfigurable given
  | "InvalidDescriptor" => return .invalidDescriptor given (← textAt scope phrases 2)
  | "InvalidConfig" | "Io" => return .invalidConfig given
  | "Thrown" => return .thrown given
  | _ => complain "unknown kind"

def raise : Operation := fun scope phrases => do
  let kind ← textAt scope phrases 0
  let content := (← valueAt scope phrases 1).asText
  throw (← faultOfKind scope phrases kind content)

def attempt : Operation := fun scope phrases => do
  match ← outcome (valueAt scope phrases 0) with
  | .ok value => return .list [.text "ok", value]
  | .error fault =>
      return .list [.text "err", .text fault.kind, .text fault.message,
        optional (fault.member.map .text)]

def withMember : Operation := fun scope phrases => do
  let result ← outcome (valueAt scope phrases 0)
  let name ← textAt scope phrases 1
  conclude (result.mapError (Fault.withMember name))

def languageForms : List (String × Operation) :=
  [("undef", undefinedValue), ("bits", bits), ("list", list), ("ref", register),
    ("this", receiver), ("args", arguments), ("arg", argument), ("base", base),
    ("advice", advice), ("target", target), ("name", name), ("seq", sequence),
    ("if", condition), ("log", log), ("cat", concatenate), ("throw", throwText),
    ("raise", raise), ("try", attempt), ("with_member", withMember)]

end TraitComposition.Script.Form
