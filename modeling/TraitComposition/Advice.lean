import TraitComposition.Action

/-!
Advice: decorators that wrap whatever their destination holds under a name. Each
piece of advice is a layer; an advised member carries the weave it was built from,
so that installing it elsewhere stacks only the layers that are missing there.
-/
namespace TraitComposition

inductive BeforeOutcome where
  | proceed
  | replaceArguments (arguments : List Value)
  | stop

/-- A list stands for other arguments and the text `STOP` for stopping; every other
answer lets the call proceed. -/
def BeforeOutcome.ofAnswer : Value → BeforeOutcome
  | .list arguments => .replaceArguments arguments
  | .text "STOP" => .stop
  | _ => .proceed

namespace Store

/-- The weave that a member value carries; a plain procedure is a bare root. -/
def weaveOf (store : Store) : Option Value → Weave
  | some (.procedure procedure) =>
      match (store.procedure procedure).mark with
      | some (.weave weave) => weave
      | _ => .bare procedure
  | _ => {}

def stackWeaves (store : Store) (current incoming : Weave) : Weave :=
  current.stack store.isRequired incoming

end Store

variable {σ : Type} (meaning : Meaning σ)

namespace Layer

def weave (reference : LayerId) (base : Option ProcedureId) : Action σ ProcedureId := do
  match (((← Action.getStore).layer reference).map Layer.advice), base with
  | some (.before advice), _ =>
      Action.edit (·.addProcedure { label := some "before", body := .before advice base })
  | some (.after advice), none => return advice
  | some (.after advice), some base =>
      Action.edit (·.addProcedure { label := some "after", body := .after advice base })
  | some (.around weaver otherwise), _ =>
      match ← Action.outcome (meaning.enter weaver (.weave base)) with
      | .ok (.procedure advised) => return advised
      | _ => Action.edit (·.addProcedure { body := .failing otherwise })
  | none, _ => return base.getD Store.requiredMarker

def weaveAll : List LayerId → Option ProcedureId → Action σ (Option ProcedureId)
  | [], woven => return woven
  | layer :: layers, woven => do
      weaveAll layers (some (← weave meaning layer woven))

end Layer

namespace Weave

/-- The advised procedure, carrying the weave and the hook that installs it again;
none if there is neither a root nor a layer. -/
def build (weave : Weave) : Action σ (Option ProcedureId) := do
  match ← Layer.weaveAll meaning weave.layers weave.root with
  | none => return none
  | some woven =>
      let marked ← Action.edit (·.withMark woven (.weave weave))
      return some (← Action.edit (·.withHook marked (.weave weave)))

end Weave

namespace Advice

/-- A decorator for one piece of advice. Called without having been installed, it
acts as the advice over nothing. -/
def createDecorator (advice : Advice) : Action σ ProcedureId := do
  let layer ← Action.edit (·.addLayer { advice := advice })
  let direct ← Action.edit (·.addProcedure { body := .standalone layer })
  Action.edit (·.addProcedure
    { label := some "decorator"
      body := .unapplied (some direct)
      hook := some (.weave (.single layer))
      mark := some (.weave (.single layer)) })

end Advice

end TraitComposition
