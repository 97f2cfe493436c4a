import TraitComposition.Script.Argument
import TraitComposition.TraitGraph

/-!
Forms for recorders, which keep the values they are given, and for graphs of traits.
-/
namespace TraitComposition.Script.Form

open Evaluation

def recorded (name : String) : Evaluation (List Value) := do
  return ((← getState).recorders.lookup name).getD []

def setRecorded (name : String) (values : List Value) : Evaluation Unit := do
  let state ← getState
  setState { state with
    recorders := (name, values) :: state.recorders.filter fun recorder => recorder.1 ≠ name }

def record (name : String) (value : Value) : Evaluation Unit := do
  setRecorded name (value :: (← recorded name))

def push : Operation := fun scope phrases => do
  let name ← textAt scope phrases 0
  let value ← valueAt scope phrases 1
  record name value
  return .undefined

/-- A procedure that records a value when it is called. Recorders last as long as the
script that made them, so in a later script it has nothing to add to. -/
def pusher : Operation := fun scope phrases => do
  let name ← textAt scope phrases 0
  let value ← valueAt scope phrases 1
  let script := (← getState).script
  let code ← createCode fun _ => (do
    if (← getState).script = script then record name value
    return .undefined : Evaluation Value).program
  return .procedure (← ask (.createProcedure none code))

def snapshot : Operation := fun scope phrases => do
  return .list (← recorded (← textAt scope phrases 0)).reverse

def numbers : Operation := fun scope phrases => do
  let values ← recorded (← textAt scope phrases 0)
  return .list ((values.reverse.filterMap Value.asNumber).map .number)

def countRecorded : Operation := fun scope phrases => do
  let name ← textAt scope phrases 0
  let value ← valueAt scope phrases 1
  return count ((← recorded name).countP (·.same value))

def clear : Operation := fun scope phrases => do
  setRecorded (← textAt scope phrases 0) []
  return .undefined

/-! ### Graphs of traits -/

def graphOfData (data : Data) : Option TraitGraph := do
  let nodes ← data.asList
  let parents ← nodes.mapM fun node => do (← node.asList).mapM Data.asNatural
  return ⟨parents.toArray⟩

def traitAncestry : Operation := fun scope phrases => do
  match graphOfData (Phrase.part phrases 0).source with
  | none => complain "expected dag"
  | some graph =>
      let node ← countAt scope phrases 1
      if node < graph.size && graph.parents.all (·.all (· < graph.size)) then
        return .list [count graph.size, .boolean graph.isEmpty,
          .list ((graph.ancestry node).map count)]
      else
        complain "node out of range"

def recordingForms : List (String × Operation) :=
  [("rec_push", push), ("rec_pusher", pusher), ("rec_snapshot", snapshot),
    ("rec_numbers", numbers), ("rec_count", countRecorded), ("rec_clear", clear),
    ("dag_ancestry", traitAncestry)]

end TraitComposition.Script.Form
