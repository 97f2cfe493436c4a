import TraitComposition.Proofs.Machine.Evolution
import TraitComposition.Proofs.Machine.Exhaustion

/-!
Machines on which user code is stopped. Only some requests are admitted, and whoever asks for
another one fails then and there. If an operation comes out the same on such a machine, nobody
got as far as asking for more, whatever else the user code around it could have asked for.
-/
namespace TraitComposition

variable {σ α : Type} (admits : Request → Bool)

/-! ### Stopped programs

A program is run up to the first request that is not admitted, and so is the user code that it
makes run. -/

def Program.runAdmitted (meaning : Meaning σ) : Program σ → Action σ Value
  | .done result => Action.ofExcept result
  | .readState next => do (next (← get).state).runAdmitted meaning
  | .writeState state next => do
      modify fun world => { world with state := state }
      next.runAdmitted meaning
  | .readStore next => do (next (← get).store).runAdmitted meaning
  | .createCode code next => do
      let (reference, world) := (← get).addCode code
      set world
      (next reference).runAdmitted meaning
  | .ask request next => do
      if admits request then
        (next (← Action.outcome (request.perform meaning))).runAdmitted meaning
      else
        throw (.thrown "not admitted")

def Meaning.admitting : (budget : Nat) → Meaning σ
  | 0 => exhausted
  | budget + 1 =>
      { (admitting budget).step with
        enter := fun code entry => do
          (((← get).code code) entry).runAdmitted admits (admitting budget) }

/-- Whether no user code that an operation runs asks for what is not admitted: the operation
comes out the same if user code is stopped there. -/
def Unstopped (operation : Meaning σ → Action σ α) (budget : Nat) (world : World σ) : Prop :=
  (operation (.admitting admits budget)).run world = (operation (.ofBudget budget)).run world

/-- Whether neither a program nor the user code that it makes run asks for what is not admitted. -/
def Program.Unstopped (program : Program σ) (budget : Nat) (world : World σ) : Prop :=
  (program.runAdmitted admits (.admitting admits budget)).run world =
    (program.run (.ofBudget budget)).run world

open TraitComposition.Action (Follows UpheldBy)

variable {admits} in
theorem unstopped_of_upheld {operation : Meaning σ → Action σ α} {world later : World σ}
    {answer : α} (upheld : ∀ meaning, UpheldBy (operation .exhausted) (operation meaning))
    (ran : (operation .exhausted).run world = (.ok answer, later)) (budget : Nat) :
    Unstopped admits operation budget world :=
  (upheld _ world answer later ran).trans (upheld _ world answer later ran).symm

variable {admits} in
/-- A program gets to its end if it gets beyond its first request, and from there to the end. -/
theorem Program.unstopped_ask {budget : Nat} {world : World σ} {request : Request}
    {next : Except Fault request.Answer → Program σ} (admitted : admits request = true)
    (first : (request.perform (.admitting admits budget)).run world =
      (request.perform (.ofBudget budget)).run world)
    (rest : (next ((request.perform (.ofBudget budget)).run world).1).Unstopped admits budget
      ((request.perform (.ofBudget budget)).run world).2) :
    (ask request next).Unstopped admits budget world := by
  rw [Unstopped, runAdmitted, run, if_pos admitted,
    Action.run_bind_of_ok _ (Action.run_outcome _ _),
    Action.run_bind_of_ok _ (Action.run_outcome _ _), first]
  exact rest

/-! ### What stopped programs respect -/

section Within

variable {admits} {passage : Passage σ} (library : passage.BearsLibrary)
  (state : ∀ (world : World σ) (state : σ), passage.leads world { world with state := state })
  (code : ∀ (world : World σ) (code : Entry → Program σ),
    passage.leads world (world.addCode code).2)
  (asks : ∀ {meaning : Meaning σ}, meaning.Within passage → ∀ request, admits request = true →
    Follows passage (request.perform meaning))

include state code asks

theorem Program.follows_runAdmitted {meaning : Meaning σ} (within : meaning.Within passage)
    (program : Program σ) : Follows passage (program.runAdmitted admits meaning) := by
  induction program with
  | done result => exact Follows.ofExcept result
  | readState next induction => exact fun world => induction _ world
  | writeState later next induction =>
      exact fun world => passage.trans (state world later) (induction _)
  | readStore next induction => exact fun world => induction _ world
  | createCode made next _ induction =>
      exact fun world => passage.trans (code world made) (induction _ _)
  | ask request next induction =>
      rw [runAdmitted]
      split
      · next admitted =>
        exact Follows.bind (Follows.outcome (asks within request admitted)) fun answer =>
          induction answer
      · exact Follows.throw _

include library

/-- A passage that bears what the library does is respected by a machine if it bears the requests
that the machine admits. -/
theorem Meaning.within_admitting (budget : Nat) :
    (Meaning.admitting admits budget : Meaning σ).Within passage := by
  induction budget with
  | zero =>
      exact
        { call := fun _ _ _ => Follows.throw _
          install := fun _ _ _ => Follows.throw _
          enter := fun _ _ => Follows.throw _ }
  | succ budget induction =>
      exact
        { call := fun _ receiver arguments =>
            Follows.bind Follows.getStore fun _ =>
              library.follows_call induction _ receiver arguments
          install := fun hook target name => library.follows_install induction hook target name
          enter := fun _ _ world =>
            Program.follows_runAdmitted state code asks induction _ world }

end Within

end TraitComposition
