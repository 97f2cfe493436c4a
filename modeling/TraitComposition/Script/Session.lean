import TraitComposition.Machine
import TraitComposition.Script.Answer
import TraitComposition.Script.Argument
import TraitComposition.Script.Evaluation

/-!
Sessions: scripts run one after the other, and so do the steps of each. A step that
fails leaves what it did before, and the next one runs all the same. A script starts
afresh, but for the Required Marker, which is the same for all of them.
-/
namespace TraitComposition.Script

/-- How deep calls, installs and entries of user code may be nested. Bodies are limited
long before; between them a call only leads to procedures that are older than its own, and
a session never makes this many. -/
def nestingBudget : Nat := 1000000000

def meaning : Meaning State :=
  .ofBudget nestingBudget

structure Session where
  world : World State
  mentions : Mentions := {}

def Session.start : Session :=
  { world := { state := {} } }

def markerHasMembers (store : Store) : Bool :=
  match (store.procedure Store.requiredMarker).table with
  | some table => !(store.ownNames table).isEmpty
  | none => false

/-- The session before the next script. All that is left of those before is what the
table of the Required Marker leads to; where it has no members, that is nothing. -/
def Session.renew (session : Session) : Session :=
  let world := session.world
  if markerHasMembers world.store then
    { world := { world with
        store := { world.store with journal := #[] }
        state := {
          serial := world.state.serial
          script := world.state.script + 1
          olderTypes := world.store.composites.size } } }
  else .start

def logEntry : Report → Option Value
  | .note value => some value
  | .conflict (.collector name _) conflict =>
      some <| .list <| [.text "conflict", .text name] ++ conflictItems conflict ++
        [.text conflict.message]
  | .conflict .errorLog _ => none

def faultFields (fault : Fault) : List (String × Data) :=
  [("error", .text fault.kind), ("message", .text fault.message),
    ("member", match fault.member with
      | some member => .text member
      | none => .null)]

def storeResult (name : Option String) (value : Value) (world : World State) : World State :=
  match name with
  | some name =>
      { world with
        state := { world.state with registers :=
          (name, value) :: world.state.registers.filter fun register => register.1 ≠ name } }
  | none => world

def outcomeFields (store : Store) (result : Except Fault Value) (mentions : Mentions) :
    List (String × Data) × Mentions :=
  match result with
  | .ok value =>
      let (data, mentions) := valueData store value mentions
      ([("v", data)], mentions)
  | .error fault => (faultFields fault, mentions)

def Session.step (session : Session) (step : Data) : Data × Session :=
  let reported := session.world.store.journal.size
  let source := (step.field? "do").getD .null
  let (result, world) := Action.run ((program source).run meaning) session.world
  let entries := (world.store.journal.extract reported).toList.filterMap logEntry
  let (log, mentions) := itemsData world.store entries session.mentions
  let (fields, mentions) := outcomeFields world.store result mentions
  let world := match result with
    | .ok value => storeResult ((step.field? "as").bind Data.asText) value world
    | .error _ => world
  let logFields := if log.isEmpty then [] else [("log", Data.list log)]
  (.record (fields ++ logFields), { world, mentions })

def Session.steps : Session → List Data → List Data × Session
  | session, [] => ([], session)
  | session, step :: rest =>
      let (answer, session) := session.step step
      let (answers, session) := session.steps rest
      (answer :: answers, session)

def rejection (explanation : String) : Data :=
  .record [("error", .text "BadInput"), ("message", .text explanation)]

def Session.answer (session : Session) (input : Option Data) : Data × Session :=
  match input with
  | none => (rejection "not JSON", session)
  | some data =>
      match (data.field? "steps").bind Data.asList with
      | some steps =>
          let (answers, session) := session.renew.steps steps
          (.record [("steps", .list answers)], session)
      | none => (rejection "no steps", session)

end TraitComposition.Script
