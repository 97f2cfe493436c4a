import TraitComposition.Advice
import TraitComposition.Script.Data

/-!
Scripts: user code written as data. A script runs as a program, and a form of the
language is an operation on the phrases it was given, which it evaluates itself.
-/
namespace TraitComposition.Script

structure State where
  registers : List (String × Value) := []
  /-- How many bodies are running inside each other. -/
  depth : Nat := 0
  /-- What recorders were given, last first. -/
  recorders : List (String × List Value) := []
  composers : List (String × Composer) := []
  /-- The number that tells the next collector apart from those before. -/
  serial : Nat := 0
  /-- How many reports had been made when the error log was last read. -/
  errorsRead : Nat := 0
  /-- The number of the script that is running. -/
  script : Nat := 0
  /-- How many composite types earlier scripts left in the store. -/
  olderTypes : Nat := 0
deriving Inhabited

def Evaluation (α : Type) : Type :=
  (Except Fault α → Program State) → Program State

namespace Evaluation

variable {α β : Type}

instance : Monad Evaluation where
  pure answer := fun rest => rest (.ok answer)
  bind first next := fun rest => first fun
    | .ok answer => next answer rest
    | .error fault => rest (.error fault)

instance : MonadExceptOf Fault Evaluation where
  throw fault := fun rest => rest (.error fault)
  tryCatch body handler := fun rest => body fun
    | .ok answer => rest (.ok answer)
    | .error fault => handler fault rest

def conclude (result : Except Fault α) : Evaluation α :=
  fun rest => rest result

def outcome (body : Evaluation α) : Evaluation (Except Fault α) :=
  fun rest => body fun result => rest (.ok result)

def getState : Evaluation State :=
  fun rest => .readState fun state => rest (.ok state)

def setState (state : State) : Evaluation Unit :=
  fun rest => .writeState state (rest (.ok ()))

def getStore : Evaluation Store :=
  fun rest => .readStore fun store => rest (.ok store)

def createCode (code : Entry → Program State) : Evaluation CodeId :=
  fun rest => .createCode code fun reference => rest (.ok reference)

def ask (request : Request) : Evaluation request.Answer :=
  fun rest => .ask request rest

def program (body : Evaluation Value) : Program State :=
  body .done

def complain (explanation : String) : Evaluation α :=
  throw (.thrown ("driver: " ++ explanation))

end Evaluation

open Evaluation

/-! ### Scopes and phrases -/

structure Scope where
  receiver : Value := .undefined
  arguments : List Value := []
  base : Value := .undefined
  advice : Value := .undefined
  target : Value := .undefined
  name : Value := .undefined
  /-- The hook that is running, inside the body of a decorator. -/
  hook : Option Hook := none
deriving Inhabited

inductive Phrase where
  | mk (source : Data) (value : Scope → Evaluation Value) (items : List Phrase)
      (fields : List (String × Phrase))

namespace Phrase

def source : Phrase → Data
  | mk source _ _ _ => source

def value : Phrase → Scope → Evaluation Value
  | mk _ value _ _ => value

def items : Phrase → List Phrase
  | mk _ _ items _ => items

def field? (phrase : Phrase) (name : String) : Option Phrase :=
  match phrase with
  | mk _ _ _ fields => fields.lookup name

def missing : Phrase :=
  mk .null (fun _ => pure .null) [] []

def part (phrases : List Phrase) (index : Nat) : Phrase :=
  phrases.getD index missing

end Phrase

abbrev Operation : Type :=
  Scope → List Phrase → Evaluation Value

/-! ### Arguments, each checked right after it is evaluated -/

section Arguments

variable (scope : Scope) (phrases : List Phrase) (index : Nat)

def valueAt : Evaluation Value :=
  (Phrase.part phrases index).value scope

def expectAt {α : Type} (kind : String) (select : Value → Option α) : Evaluation α := do
  match select (← valueAt scope phrases index) with
  | some answer => return answer
  | none => complain ("expected " ++ kind)

def objectAt : Evaluation ObjectId :=
  expectAt scope phrases index "object" Value.asObject

def procedureAt : Evaluation ProcedureId :=
  expectAt scope phrases index "function" Value.asProcedure

def textAt : Evaluation String :=
  expectAt scope phrases index "string" Value.asText

def listAt : Evaluation (List Value) :=
  expectAt scope phrases index "list" Value.asList

def countAt : Evaluation Nat := do
  return (← expectAt scope phrases index "number" Value.asNumber).toUInt64.toNat

def objectsAt : Evaluation (List ObjectId) := do
  (← listAt scope phrases index).mapM fun item =>
    match item.asObject with
    | some object => pure object
    | none => complain "expected object"

def compositeAt : Evaluation (CompositeId × Composite) := do
  let procedure ← procedureAt scope phrases index
  let older := (← getState).olderTypes
  match ((← getStore).typeOf? procedure).filter fun type => older ≤ type.1.index with
  | some type => return type
  | none => complain "not a composite type"

end Arguments

/-! ### Values that answers are made of -/

def texts (items : List String) : Value :=
  .list (items.map .text)

def objects (items : List ObjectId) : Value :=
  .list (items.map .object)

def procedures (items : List ProcedureId) : Value :=
  .list (items.map .procedure)

def count (amount : Nat) : Value :=
  .number (.ofNat amount)

def optional (value : Option Value) : Value :=
  value.getD .undefined

/-! ### Bodies -/

def depthLimit : Nat := 100

def nested {α : Type} (body : Evaluation α) : Evaluation α := do
  let before ← getState
  if depthLimit ≤ before.depth then
    complain "call depth exceeded"
  else
    setState { before with depth := before.depth + 1 }
    let result ← outcome body
    let after ← getState
    setState { after with depth := after.depth - 1 }
    conclude result

def Scope.enter (scope : Scope) : Entry → Scope
  | .call receiver arguments => { scope with receiver, arguments, hook := none }
  | .weave base => { scope with base := .ofProcedure? base, hook := none }
  | .install hook target name =>
      { scope with target := .object target, name := .text name, hook := some hook }

def closure (scope : Scope) (body : Phrase) : Evaluation CodeId :=
  createCode fun entry => (nested (body.value (scope.enter entry))).program

end TraitComposition.Script
