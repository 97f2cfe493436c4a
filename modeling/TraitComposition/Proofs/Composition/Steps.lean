import TraitComposition.Proofs.Composition.Construction
import TraitComposition.Proofs.Merge.Courses

/-!
The steps of a construction. It finds an object to start from and calls constructors. What a
constructor answers with is copied, and so are inherited accessors in the end: the instance is
asked for its definer, and then each member is assigned or defined. These steps, taken one after
the other in the worlds that they lead to, are all that construction does.
-/
namespace TraitComposition

variable {σ : Type}

namespace Composite

open TraitComposition.Action (Follows run_bind_of_ok run_bind_of_error)
open TraitComposition.Merge (ended)

inductive Step where
  /-- Takes the receiver if it is an instance, and otherwise makes one. -/
  | enter (receiver : Value)
  | call (constructor : ProcedureId) (target : ObjectId)
  /-- Asks an object for its definer. -/
  | ask (target : ObjectId)
  /-- Assigns to a name what another object has under it. -/
  | assign (target returned : ObjectId) (name : String)
  | define (definer : Definer) (target : ObjectId) (name : String) (descriptor : Descriptor)

structure Moment (σ : Type) where
  step : Step
  before : World σ

section Steps

variable (meaning : Meaning σ) (prototype : ObjectId) (arguments : List Value)

def Step.act : Step → Action σ Unit
  | enter receiver => candidate prototype receiver >>= fun _ => pure ()
  | call constructor target =>
      meaning.call constructor (.object target) arguments >>= fun _ => pure ()
  | ask target => Definer.ofValue meaning (.object target) >>= fun _ => pure ()
  | assign target returned name =>
      Member.read meaning returned name >>= Member.assign meaning target name
  | define definer target name descriptor => definer.define meaning target name descriptor

def Moment.run (moment : Moment σ) : Except Fault Unit × World σ :=
  (moment.step.act meaning prototype arguments).run moment.before

inductive Course : World σ → List (Moment σ) → Except Fault Unit → World σ → Prop
  | finished (world : World σ) : Course world [] (.ok ()) world
  | failed {step : Step} {first last : World σ} {fault : Fault}
      (ran : Moment.run meaning prototype arguments ⟨step, first⟩ = (.error fault, last)) :
      Course first [⟨step, first⟩] (.error fault) last
  | step {step : Step} {first between last : World σ} {rest : List (Moment σ)}
      {result : Except Fault Unit}
      (ran : Moment.run meaning prototype arguments ⟨step, first⟩ = (.ok (), between))
      (course : Course between rest result last) : Course first (⟨step, first⟩ :: rest) result last

end Steps

section Course

variable {meaning : Meaning σ} {prototype : ObjectId} {arguments : List Value}

theorem Moment.leads (evolving : meaning.Evolving) (prototype : ObjectId)
    (arguments : List Value) (moment : Moment σ) :
    (Passage.evolution σ).leads moment.before (moment.run meaning prototype arguments).2 := by
  have bears : (Passage.evolution σ).Bears fun _ => True := Passage.bears_evolution
  suffices follows : (moment.step.act meaning prototype arguments).Evolving from
    follows moment.before
  cases moment.step with
  | enter receiver =>
      exact Follows.bind (bears.follows_candidate prototype receiver) fun _ => Follows.pure _
  | call constructor target =>
      exact Follows.bind (evolving.call constructor _ arguments) fun _ => Follows.pure _
  | ask target => exact Follows.bind (Definer.evolving_ofValue evolving _) fun _ => Follows.pure _
  | assign target returned name =>
      exact Follows.bind (Member.follows_read evolving.call returned name) fun value =>
        bears.follows_assign evolving.within target name value
  | define definer target name descriptor =>
      exact bears.follows_define evolving.within definer target name descriptor

namespace Course

variable {first between last : World σ} {early late : List (Moment σ)}
  {result : Except Fault Unit}

private theorem append (start : Course meaning prototype arguments first early (.ok ()) between)
    (course : Course meaning prototype arguments between late result last) :
    Course meaning prototype arguments first (early ++ late) result last := by
  generalize succeeded : Except.ok () = done at start
  induction start with
  | finished => exact course
  | failed => cases succeeded
  | step ran _ induction => exact .step ran (induction course succeeded)

private theorem leads (course : Course meaning prototype arguments first early result last)
    (evolving : meaning.Evolving) : (Passage.evolution σ).leads first last := by
  induction course with
  | finished => exact (Passage.evolution σ).refl _
  | @failed step first _ _ ran =>
      have reached := Moment.leads evolving prototype arguments ⟨step, first⟩
      rwa [ran] at reached
  | @step step first _ _ _ _ ran _ induction =>
      have reached := Moment.leads evolving prototype arguments ⟨step, first⟩
      rw [ran] at reached
      exact (Passage.evolution σ).trans reached induction

/-- What did not hold at first and holds in the end has come about in one of the steps. -/
theorem exists_of_changes (course : Course meaning prototype arguments first early result last)
    (evolving : meaning.Evolving) (property : World σ → Prop) (fails : ¬property first)
    (holds : property last) :
    ∃ moment ∈ early, ¬property moment.before ∧
      property (moment.run meaning prototype arguments).2 ∧
      (Passage.evolution σ).leads (moment.run meaning prototype arguments).2 last := by
  induction course with
  | finished => exact absurd holds fails
  | failed ran =>
      refine ⟨_, List.mem_singleton_self _, fails, ?_⟩
      rw [ran]
      exact ⟨holds, (Passage.evolution σ).refl _⟩
  | @step _ _ between _ _ _ ran course induction =>
      by_cases held : property between
      · refine ⟨_, List.mem_cons_self .., fails, ?_⟩
        rw [ran]
        exact ⟨held, course.leads evolving⟩
      · rcases induction held holds with ⟨moment, member, brought⟩
        exact ⟨moment, List.mem_cons_of_mem _ member, brought⟩

end Course

end Course

/-! ### Copying members -/

/-- What is copied onto an instance: the members of an object that a constructor answered
with, or the accessors that the instance inherits. -/
inductive Copying where
  | absorbing (returned : ObjectId)
  | materializing

namespace Copying

variable (meaning : Meaning σ) (prototype : ObjectId) (arguments : List Value) (definer : Definer)
  (target : ObjectId) (copying : Copying)

def names (store : Store) : Copying → List String
  | absorbing returned => store.keys returned
  | materializing => store.enumerableNames target

def copyMember : Copying → String → Action σ Unit
  | absorbing returned => absorbMember meaning definer target returned
  | materializing => materializeMember meaning definer target

def copy : Copying → Action σ Unit
  | absorbing returned => absorb meaning target returned
  | materializing => materialize meaning target

def step? (store : Store) (name : String) : Copying → Option Step
  | absorbing returned =>
      if store.has target name then
        some (.assign target returned name)
      else
        (store.ownDescriptor? returned name).map (.define definer target name)
  | materializing =>
      if store.hasOwn target name then
        none
      else
        ((store.descriptor? target name).filter Descriptor.isAccessor).map
          (.define definer target name)

def momentsOfNames : List String → World σ → List (Moment σ)
  | [], _ => []
  | name :: names, world =>
      ((copying.step? definer target world.store name).map (⟨·, world⟩)).toList ++
      match (copying.copyMember meaning definer target name).run world with
      | (.ok _, later) => momentsOfNames names later
      | (.error _, _) => []

def moments (world : World σ) : List (Moment σ) :=
  ⟨.ask target, world⟩ ::
  match (Definer.ofValue meaning (.object target)).run world with
  | (.ok definer, asked) =>
      copying.momentsOfNames meaning definer target (copying.names target asked.store) asked
  | (.error _, _) => []

theorem run_copyMember (name : String) (world : World σ) :
    (copying.copyMember meaning definer target name).run world =
      match copying.step? definer target world.store name with
      | some step => Moment.run meaning prototype arguments ⟨step, world⟩
      | none => (.ok (), world) := by
  cases copying with
  | absorbing returned =>
      rw [copyMember, absorbMember, Action.run_getStore_bind, step?]
      split
      · rfl
      · cases world.store.ownDescriptor? returned name <;> rfl
  | materializing =>
      rw [copyMember, materializeMember, Action.run_getStore_bind, step?]
      split
      · rfl
      · cases found : world.store.descriptor? target name with
        | none => rfl
        | some descriptor =>
            rw [Option.filter_some]
            dsimp only
            split <;> rfl

private theorem course_of_names (names : List String) (world : World σ) :
    Course meaning prototype arguments world
      (copying.momentsOfNames meaning definer target names world)
      ((names.forM (copying.copyMember meaning definer target)).run world).1
      ((names.forM (copying.copyMember meaning definer target)).run world).2 := by
  induction names generalizing world with
  | nil => exact .finished world
  | cons name names induction =>
      have copied := copying.run_copyMember meaning prototype arguments definer target name world
      rw [momentsOfNames, List.forM, Action.run_bind, copied]
      cases copying.step? definer target world.store name with
      | none => exact induction world
      | some step =>
          dsimp only
          rcases ran : Moment.run meaning prototype arguments ⟨step, world⟩ with
            ⟨fault | _, later⟩
          · exact .failed ran
          · exact .step ran (induction later)

private theorem copy_eq : copying.copy meaning target = (do
    let definer ← Definer.ofValue meaning (.object target)
    (copying.names target (← Action.getStore)).forM
      (copying.copyMember meaning definer target)) := by
  cases copying <;> rfl

private theorem course_of_copy (world : World σ) :
    Course meaning prototype arguments world (copying.moments meaning target world)
      ((copying.copy meaning target).run world).1 ((copying.copy meaning target).run world).2 := by
  rw [copy_eq, moments]
  rcases asked : (Definer.ofValue meaning (.object target)).run world with ⟨fault | definer, later⟩
  · rw [run_bind_of_error _ asked]
    exact .failed (run_bind_of_error _ asked)
  · rw [run_bind_of_ok _ asked, Action.run_getStore_bind]
    exact .step (run_bind_of_ok _ asked) (copying.course_of_names meaning prototype arguments
      definer target _ later)

end Copying

/-! ### The whole construction -/

section Moments

variable (meaning : Meaning σ) (prototype : ObjectId) (arguments : List Value)

def momentsOfConstructors : List ProcedureId → ObjectId → World σ → List (Moment σ)
  | [], _, _ => []
  | constructor :: constructors, receiver, world =>
      ⟨.call constructor receiver, world⟩ ::
      match (meaning.call constructor (.object receiver) arguments).run world with
      | (.ok (.object returned), called) =>
          if called.store.isPrototypeOf prototype returned then
            momentsOfConstructors constructors returned called
          else
            (Copying.absorbing returned).moments meaning receiver called ++
            match (absorb meaning receiver returned).run called with
            | (.ok _, later) => momentsOfConstructors constructors receiver later
            | (.error _, _) => []
      | (.ok _, called) => momentsOfConstructors constructors receiver called
      | (.error _, _) => []

def momentsOfCompletion (type : Composite) (built : ObjectId) (world : World σ) :
    List (Moment σ) :=
  if type.composer.config.materializeAccessors then
    Copying.materializing.moments meaning built world
  else []

def moments (type : Composite) (receiver : Value) (world : World σ) : List (Moment σ) :=
  ⟨.enter receiver, world⟩ ::
  match (candidate type.prototype receiver).run world with
  | (.ok start, entered) =>
      momentsOfConstructors meaning type.prototype arguments type.bases.constructors start
        entered ++
      match (runConstructors meaning type.prototype arguments type.bases.constructors start).run
          entered with
      | (.ok built, later) => type.momentsOfCompletion meaning built later
      | (.error _, _) => []
  | (.error _, _) => []

private theorem course_of_constructors :
    ∀ (constructors : List ProcedureId) (receiver : ObjectId) (world : World σ),
      Course meaning prototype arguments world
        (momentsOfConstructors meaning prototype arguments constructors receiver world)
        (ended ((runConstructors meaning prototype arguments constructors receiver).run world).1)
        ((runConstructors meaning prototype arguments constructors receiver).run world).2
  | [], receiver, world => .finished world
  | constructor :: constructors, receiver, world => by
      rw [momentsOfConstructors]
      rcases ran : (meaning.call constructor (.object receiver) arguments).run world with
        ⟨fault | answer, called⟩
      · rw [runConstructors, run_bind_of_error _ ran]
        exact .failed (run_bind_of_error _ ran)
      refine .step (run_bind_of_ok _ ran) ?_
      rw [runConstructors, run_bind_of_ok _ ran]
      cases answer with
      | object returned =>
          dsimp only
          rw [Action.run_getStore_bind]
          split
          · exact course_of_constructors constructors returned called
          · have absorbing := (Copying.absorbing returned).course_of_copy meaning prototype
              arguments receiver called
            rw [Copying.copy] at absorbing
            rcases copied : (absorb meaning receiver returned).run called with
              ⟨fault | _, later⟩
            · rw [run_bind_of_error _ copied]
              rw [copied] at absorbing
              rw [List.append_nil]
              exact absorbing
            · rw [run_bind_of_ok _ copied]
              rw [copied] at absorbing
              exact absorbing.append (course_of_constructors constructors receiver later)
      | undefined | null | boolean | number | text | list | procedure =>
          exact course_of_constructors constructors receiver called

private theorem course_of_completion (type : Composite) (built : ObjectId) (world : World σ) :
    Course meaning prototype arguments world (type.momentsOfCompletion meaning built world)
      (ended ((type.complete meaning built).run world).1)
      ((type.complete meaning built).run world).2 := by
  unfold momentsOfCompletion complete
  split
  · have copying := Copying.materializing.course_of_copy meaning prototype arguments built world
    rw [Copying.copy] at copying
    rcases copied : (materialize meaning built).run world with ⟨fault | _, last⟩
    · rw [copied] at copying
      rw [run_bind_of_error _ copied]
      exact copying
    · rw [copied] at copying
      rw [run_bind_of_ok _ copied]
      exact copying
  · exact .finished world

theorem course_of_construct (type : Composite) (receiver : Value) (world : World σ) :
    Course meaning type.prototype arguments world (type.moments meaning arguments receiver world)
      (ended ((type.construct meaning receiver arguments).run world).1)
      ((type.construct meaning receiver arguments).run world).2 := by
  rcases exists_start type.prototype receiver world with ⟨start, entered, _, ran⟩
  rw [moments, construct_eq, run_bind_of_ok _ ran, ran]
  refine .step (run_bind_of_ok _ ran) ?_
  have calling := course_of_constructors meaning type.prototype arguments
    type.bases.constructors start entered
  rcases called : (runConstructors meaning type.prototype arguments type.bases.constructors
    start).run entered with ⟨fault | built, later⟩
  · rw [called] at calling
    rw [run_bind_of_error _ called]
    dsimp only
    rw [called, List.append_nil]
    exact calling
  · rw [called] at calling
    rw [run_bind_of_ok _ called]
    dsimp only
    rw [called]
    exact calling.append (type.course_of_completion meaning type.prototype arguments built later)

end Moments

end Composite

end TraitComposition
