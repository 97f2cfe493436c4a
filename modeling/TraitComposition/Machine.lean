import TraitComposition.Composition
import TraitComposition.Decorator

/-!
The machine: what calls, installs and user code do, in terms of themselves. The
knot is tied by a budget, the depth to which they may be nested; a world in which
it runs out would otherwise nest them without end.
-/
namespace TraitComposition

variable {σ : Type} (meaning : Meaning σ)

def Procedure.call (procedure : Procedure) (receiver : Value) (arguments : List Value) :
    Action σ Value := do
  match procedure.body with
  | .code code => meaning.enter code (.call receiver arguments)
  | .required => throw (.unfulfilledRequirement none)
  | .unapplied none => throw (.decoratorNotApplied none)
  | .unapplied (some direct) => meaning.call direct receiver arguments
  | .composite type =>
      match (← Action.getStore).composite type with
      | some composite => return .object (← composite.construct meaning receiver arguments)
      | none => return .undefined
  | .constructible code _ _ => meaning.enter code (.call receiver arguments)
  | .before advice base =>
      match BeforeOutcome.ofAnswer (← meaning.enter advice (.call receiver arguments)), base with
      | .stop, _ | _, none => return .undefined
      | .proceed, some base => meaning.call base receiver arguments
      | .replaceArguments others, some base => meaning.call base receiver others
  | .after advice base =>
      let result ← meaning.call base receiver arguments
      let advised ← meaning.call advice receiver arguments
      return if advised.isUndefined then result else advised
  | .standalone layer =>
      match ((← Action.getStore).layer layer).bind Layer.standalone with
      | some woven => meaning.call woven receiver arguments
      | none =>
          let woven ← Layer.weave meaning layer none
          Action.change (·.setStandalone layer woven)
          meaning.call woven receiver arguments
  | .failing fault => throw fault

/-! ### Requests and programs -/

def Request.perform : (request : Request) → Action σ request.Answer
  | .createObject parent => Action.edit (·.createObject parent)
  | .insert object name value => Action.change (·.insert object name value)
  | .read object name => Member.read meaning object name
  | .assign object name value => Member.assign meaning object name value
  | .define object name descriptor => Member.define object name descriptor
  | .delete object name => Action.edit (·.delete object name)
  | .remove object name => Action.edit (·.remove object name)
  | .invoke object name arguments => Member.invoke meaning object name arguments
  | .encode descriptor => descriptor.encode
  | .decode member object => Descriptor.decode meaning member object
  | .encodePatch patch => patch.encode
  | .completePatch member patch => patch.complete meaning member
  | .createProcedure label code => Action.edit (·.addProcedure { label, body := .code code })
  | .createConstructible code prototype bases =>
      Action.edit (·.addProcedure
        { label := some "composite", body := .constructible code prototype bases })
  | .call procedure receiver arguments => meaning.call procedure receiver arguments
  | .prototypeOf procedure => Action.edit (·.prototypeOf procedure)
  | .withHook procedure hook => Action.edit (·.withHook procedure hook)
  | .withMark procedure mark => Action.edit (·.withMark procedure mark)
  | .install hook target name => meaning.install hook target name
  | .createDecorator hook direct => Decorator.create hook direct
  | .createAlias source member => Decorator.createAlias source member
  | .createAdvice advice => advice.createDecorator
  | .build weave => weave.build meaning
  | .prototypes sources => Action.edit (Store.prototypes sources)
  | .delegate base => Sources.delegate base
  | .definerFor value => Definer.ofValue meaning value
  | .defineThrough definer object name descriptor => definer.define meaning object name descriptor
  | .mixin target sources definer => TraitComposition.mixin meaning target sources definer
  | .compose composer sources => composer.compose meaning sources
  | .create composer base sources => composer.create meaning base sources
  | .mixinInto composer target sources => composer.mixinInto meaning target sources
  | .extend type sources => type.extend meaning sources
  | .construct type arguments => type.construct meaning .undefined arguments
  | .setDefiner type definer => Action.change (·.setDefiner type definer)
  | .note value => Action.change (·.report (.note value))

def Program.run : Program σ → Action σ Value
  | .done result => Action.ofExcept result
  | .readState next => do (next (← get).state).run
  | .writeState state next => do
      modify fun world => { world with state := state }
      next.run
  | .readStore next => do (next (← get).store).run
  | .createCode code next => do
      let (reference, world) := (← get).addCode code
      set world
      (next reference).run
  | .ask request next => do
      (next (← Action.outcome (request.perform meaning))).run

/-! ### The knot -/

namespace Meaning

@[inline]
def step : Meaning σ where
  call procedure receiver arguments := do
    ((← Action.getStore).procedure procedure).call meaning receiver arguments
  install hook target name := Decorator.install meaning hook target name
  enter code entry := do (((← get).code code) entry).run meaning

def exhausted : Meaning σ where
  call _ _ _ := throw (.thrown "call nesting exhausted")
  install _ _ _ := throw (.thrown "call nesting exhausted")
  enter _ _ := throw (.thrown "call nesting exhausted")

/-- What everything means when calls, installs and entries of user code are nested
at most `budget` deep. The levels below are only made up when something is nested. -/
def ofBudget : (budget : Nat) → Meaning σ
  | 0 => exhausted
  | budget + 1 =>
      { call := fun procedure receiver arguments =>
          (ofBudget budget).step.call procedure receiver arguments
        install := fun hook target name => (ofBudget budget).step.install hook target name
        enter := fun code entry => (ofBudget budget).step.enter code entry }

theorem ofBudget_succ (budget : Nat) :
    (ofBudget (budget + 1) : Meaning σ) = (ofBudget budget).step := rfl

end Meaning

end TraitComposition
