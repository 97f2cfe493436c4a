import TraitComposition.Proofs.Composition.Steps
import TraitComposition.Proofs.Store.Assignment
import TraitComposition.Proofs.Store.Encoding

/-!
What construction defines. Members are copied onto an instance when a constructor answers with
a foreign object, and when inherited accessors are made its own. Those that are new to the
instance are defined through what the instance itself resolves as its definer, if anything. The
definer that was set on the type is not asked. Whatever else an instance comes to own, it is
given by code that is called, or by an assignment to a name that it resolved.
-/
namespace TraitComposition

variable {σ : Type}

def Definer.ofAnswer : Value → Definer
  | .procedure definer => .custom definer
  | _ => .raw

private theorem Definer.ofValue_object (meaning : Meaning σ) (object : ObjectId) :
    ofValue meaning (.object object) = (do
      return ofAnswer (← Member.read meaning object memberName)) := by
  refine bind_congr fun answer => ?_
  cases answer <;> rfl

private theorem Store.parent_ne_none_of_isPrototypeOf {store : Store} {prototype object : ObjectId}
    (delegates : store.isPrototypeOf prototype object = true) : store.parent object ≠ none := by
  intro parentless
  rw [isPrototypeOf, decide_eq_true_iff, ancestors, ancestry, ancestryWithin, parentless]
    at delegates
  cases delegates

private theorem Store.eq_of_gained_of_storeMember {store : Store} {target object : ObjectId}
    {stored name : String} {descriptor : Descriptor}
    (unowned : store.hasOwn object name = false)
    (owned : (store.storeMember target stored descriptor).hasOwn object name = true) :
    object = target ∧ name = stored := by
  by_contra different
  rw [hasOwn_eq_isSome, ownDescriptor?_storeMember_other store descriptor different,
    ← hasOwn_eq_isSome, unowned] at owned
  cases owned

namespace Composite

open TraitComposition.Merge (ended)

/-! ### Who gives a name

Code is called for constructors, for getters and setters, and for definers, each time in the world
that the step has reached by then. -/

structure Call (σ : Type) where
  procedure : ProcedureId
  receiver : Value
  arguments : List Value
  before : World σ

def Call.run (meaning : Meaning σ) (call : Call σ) : Except Fault Value × World σ :=
  (meaning.call call.procedure call.receiver call.arguments).run call.before

section Giving

variable (meaning : Meaning σ) (arguments : List Value)

inductive Moment.Calls : Moment σ → Call σ → Prop
  | constructor (constructor : ProcedureId) (target : ObjectId) (before : World σ) :
      Calls ⟨.call constructor target, before⟩ ⟨constructor, .object target, arguments, before⟩
  | asked {target : ObjectId} {getter : ProcedureId} {before : World σ}
      (resolved : (before.store.descriptor? target Definer.memberName).bind Descriptor.getter? =
        some getter) :
      Calls ⟨.ask target, before⟩ ⟨getter, .object target, [], before⟩
  | getter {returned : ObjectId} {name : String} {getter : ProcedureId} {before : World σ}
      (target : ObjectId)
      (resolved : (before.store.descriptor? returned name).bind Descriptor.getter? =
        some getter) :
      Calls ⟨.assign target returned name, before⟩ ⟨getter, .object returned, [], before⟩
  | setter {target returned : ObjectId} {name : String} {value : Value} {setter : ProcedureId}
      {before read : World σ}
      (answers : (Member.read meaning returned name).run before = (.ok value, read))
      (resolved : (read.store.descriptor? target name).bind Descriptor.setter? = some setter) :
      Calls ⟨.assign target returned name, before⟩ ⟨setter, .object target, [value], read⟩
  | definer (definer : ProcedureId) (target : ObjectId) (name : String) (descriptor : Descriptor)
      (before : World σ) :
      Calls ⟨.define (.custom definer) target name descriptor, before⟩
        ⟨definer, .object target,
          [.text name, .object (Store.encode descriptor.fields before.store).1],
          { before with store := (Store.encode descriptor.fields before.store).2 }⟩

/-- How an object is given a name in a step: it is stored as it is, assigned, or given by a
procedure that is called. -/
inductive Moment.Gives (object : ObjectId) (name : String) : Moment σ → Prop
  | defined (descriptor : Descriptor) (before : World σ) :
      Gives object name ⟨.define .raw object name descriptor, before⟩
  | assigned (returned : ObjectId) (before : World σ) :
      Gives object name ⟨.assign object returned name, before⟩
  | called {moment : Moment σ} {call : Call σ} (calls : moment.Calls meaning arguments call)
      (unowned : call.before.store.hasOwn object name = false)
      (owned : (call.run meaning).2.store.hasOwn object name = true) : Gives object name moment

end Giving

section Gaining

variable {meaning : Meaning σ} {prototype : ObjectId} {arguments : List Value} {object : ObjectId}
  {name : String} {before : World σ} (unowned : before.store.hasOwn object name = false)

include unowned

private theorem hasOwn_candidate (receiver : Value) :
    ((candidate prototype receiver).run before).2.store.hasOwn object name = false := by
  rcases exists_start prototype receiver before with ⟨start, entered, starts, ran⟩
  rw [ran]
  cases starts with
  | given => exact unowned
  | fresh =>
      rw [Store.hasOwn, Store.delegating, Store.members_createObject]
      exact unowned

private theorem gives_of_ask {target : ObjectId}
    (owned : (Moment.run meaning prototype arguments ⟨.ask target, before⟩).2.store.hasOwn object
      name = true) : Moment.Gives meaning arguments object name ⟨.ask target, before⟩ := by
  have asking : (Moment.run meaning prototype arguments ⟨.ask target, before⟩).2 =
      ((Member.read meaning target Definer.memberName).run before).2 := by
    rw [Moment.run, Step.act, Action.reached_bind_pure, Definer.ofValue_object,
      Action.run_bind]
    rcases (Member.read meaning target Definer.memberName).run before with ⟨fault | _, later⟩ <;>
      rfl
  rw [asking] at owned
  rcases Member.reached_read meaning before target Definer.memberName with
    ⟨getter, resolved, reached⟩ | reached
  · rw [reached] at owned
    exact .called (.asked resolved) unowned owned
  · rw [reached, unowned] at owned
    cases owned

private theorem gives_of_assign {target returned : ObjectId} {copied : String}
    (owned : (Moment.run meaning prototype arguments
      ⟨.assign target returned copied, before⟩).2.store.hasOwn object name = true) :
    Moment.Gives meaning arguments object name ⟨.assign target returned copied, before⟩ := by
  rw [Moment.run, Step.act, Action.run_bind] at owned
  cases early : ((Member.read meaning returned copied).run before).2.store.hasOwn object name with
  | true =>
      rcases Member.reached_read meaning before returned copied with
        ⟨getter, resolved, reached⟩ | reached
      · rw [reached] at early
        exact .called (.getter target resolved) unowned early
      · rw [reached, unowned] at early
        cases early
  | false =>
      rcases read : (Member.read meaning returned copied).run before with ⟨fault | value, asked⟩
      · rw [read] at early owned
        cases early.symm.trans owned
      · rw [read] at early owned
        rcases Member.reached_assign meaning asked target copied value with
          ⟨setter, resolved, reached⟩ | reached | ⟨descriptor, reached⟩
        · rw [reached] at owned
          exact .called (.setter read resolved) early owned
        · rw [reached] at owned
          cases early.symm.trans owned
        · rw [reached] at owned
          rcases Store.eq_of_gained_of_storeMember early owned with ⟨rfl, rfl⟩
          exact .assigned returned before

private theorem gives_of_define (evolving : meaning.Evolving) {definer : Definer}
    {target : ObjectId} {defined : String} {descriptor : Descriptor}
    (owned : (Moment.run meaning prototype arguments
      ⟨.define definer target defined descriptor, before⟩).2.store.hasOwn object name = true)
    (delegates : (Moment.run meaning prototype arguments
      ⟨.define definer target defined descriptor, before⟩).2.store.parent object ≠ none) :
    Moment.Gives meaning arguments object name
      ⟨.define definer target defined descriptor, before⟩ := by
  cases definer with
  | raw =>
      have defining : Moment.run meaning prototype arguments
          ⟨.define .raw target defined descriptor, before⟩ =
            (Member.define target defined descriptor).run before := rfl
      rw [defining] at owned
      cases accepted : before.store.accepts target defined descriptor with
      | true =>
          rw [Member.run_define_of_accepts accepted] at owned
          rcases Store.eq_of_gained_of_storeMember unowned owned with ⟨rfl, rfl⟩
          exact .defined descriptor before
      | false =>
          rw [Member.run_define_of_not_accepts accepted] at owned
          cases unowned.symm.trans owned
  | custom procedure =>
      let call : Call σ := ⟨procedure, .object target,
        [.text defined, .object (Store.encode descriptor.fields before.store).1],
        { before with store := (Store.encode descriptor.fields before.store).2 }⟩
      have defining : (Moment.run meaning prototype arguments
          ⟨.define (.custom procedure) target defined descriptor, before⟩).2 =
            (call.run meaning).2 := by
        rw [Moment.run, Step.act, Definer.define, Descriptor.encode, Action.run_edit_bind,
          Action.reached_bind_pure]
        rfl
      rw [defining] at owned delegates
      -- The object that describes the member is new, and delegates to nothing.
      have apart : object ≠ before.store.nextObject := by
        rintro rfl
        have calling := evolving.call procedure (.object target)
          [.text defined, .object (Store.encode descriptor.fields before.store).1] call.before
        have described := (calling.1.extends.object _
          (Store.hasObject_encode descriptor.fields before.store)).2
        exact delegates (described.trans (Store.parent_encode descriptor.fields before.store))
      have calls : Moment.Calls meaning arguments
          ⟨.define (.custom procedure) target defined descriptor, before⟩ call :=
        .definer procedure target defined descriptor before
      refine .called calls ?_ owned
      rw [Store.hasOwn, Store.members_encode_other apart]
      exact unowned

private theorem Moment.gives (evolving : meaning.Evolving) (step : Step)
    (owned : (Moment.run meaning prototype arguments ⟨step, before⟩).2.store.hasOwn object name =
      true)
    (delegates : (Moment.run meaning prototype arguments ⟨step, before⟩).2.store.parent object ≠
      none) :
    Moment.Gives meaning arguments object name ⟨step, before⟩ := by
  cases step with
  | enter receiver =>
      have entering : (Moment.run meaning prototype arguments ⟨.enter receiver, before⟩).2 =
          ((candidate prototype receiver).run before).2 := Action.reached_bind_pure ..
      rw [entering, hasOwn_candidate unowned] at owned
      cases owned
  | call constructor target =>
      have calling : (Moment.run meaning prototype arguments ⟨.call constructor target, before⟩).2 =
          ((meaning.call constructor (.object target) arguments).run before).2 :=
        Action.reached_bind_pure ..
      rw [calling] at owned
      exact .called (.constructor constructor target before) unowned owned
  | ask target => exact gives_of_ask unowned owned
  | assign target returned copied => exact gives_of_assign unowned owned
  | define definer target defined descriptor =>
      exact gives_of_define unowned evolving owned delegates

end Gaining

/-! ### What is done to instances -/

/-- What is known of the steps of a construction. Each treats an instance. What it assigns to is
resolved; what it defines is new, and is defined through what the instance answered when it was
asked for its definer. -/
inductive Moment.OfInstance (meaning : Meaning σ) (prototype : ObjectId)
    (moments : List (Moment σ)) : Moment σ → Prop
  | enter (receiver : Value) (before : World σ) :
      OfInstance meaning prototype moments ⟨.enter receiver, before⟩
  | call {constructor : ProcedureId} {target : ObjectId} {before : World σ}
      (delegates : before.store.isPrototypeOf prototype target = true) :
      OfInstance meaning prototype moments ⟨.call constructor target, before⟩
  | ask {target : ObjectId} {before : World σ}
      (delegates : before.store.isPrototypeOf prototype target = true) :
      OfInstance meaning prototype moments ⟨.ask target, before⟩
  | assign {target returned : ObjectId} {name : String} {before : World σ}
      (delegates : before.store.isPrototypeOf prototype target = true)
      (resolved : before.store.has target name = true) :
      OfInstance meaning prototype moments ⟨.assign target returned name, before⟩
  | define {target : ObjectId} {name : String} {descriptor : Descriptor}
      {asked answered before : World σ} {answer : Value}
      (delegates : before.store.isPrototypeOf prototype target = true)
      (new : before.store.ownDescriptor? target name = none)
      (copied : before.store.has target name = false ∧
          (∃ returned, before.store.ownDescriptor? returned name = some descriptor) ∨
        before.store.descriptor? target name = some descriptor ∧ descriptor.isAccessor = true)
      (asks : ⟨.ask target, asked⟩ ∈ moments)
      (answers : (Member.read meaning target Definer.memberName).run asked = (.ok answer, answered))
      (reached : (Passage.evolution σ).leads answered before) :
      OfInstance meaning prototype moments
        ⟨.define (.ofAnswer answer) target name descriptor, before⟩

theorem Moment.OfInstance.mono {meaning : Meaning σ} {prototype : ObjectId}
    {some more : List (Moment σ)} {moment : Moment σ}
    (treated : moment.OfInstance meaning prototype some) (within : ∀ moment ∈ some, moment ∈ more) :
    moment.OfInstance meaning prototype more := by
  cases treated with
  | enter receiver before => exact .enter receiver before
  | call delegates => exact .call delegates
  | ask delegates => exact .ask delegates
  | assign delegates resolved => exact .assign delegates resolved
  | define delegates new copied asks answers reached =>
      exact .define delegates new copied (within _ asks) answers reached

private theorem Moment.OfInstance.unowned {meaning : Meaning σ} {prototype target : ObjectId}
    {moments : List (Moment σ)} {definer : Definer} {name : String} {descriptor : Descriptor}
    {before : World σ}
    (treated : OfInstance meaning prototype moments
      ⟨.define definer target name descriptor, before⟩) :
    before.store.ownDescriptor? target name = none := by
  cases treated with
  | define _ new => exact new

section Instances

variable {meaning : Meaning σ} (evolving : meaning.Evolving) {prototype : ObjectId}
  {arguments : List Value}

namespace Copying

variable {copying : Copying} {target : ObjectId} {world : World σ}

private theorem ofInstance_of_step? {moments : List (Moment σ)} {name : String} {step : Step}
    {asked answered : World σ} {answer : Value}
    (steps : copying.step? (.ofAnswer answer) target world.store name = some step)
    (delegates : world.store.isPrototypeOf prototype target = true)
    (asks : ⟨.ask target, asked⟩ ∈ moments)
    (answers : (Member.read meaning target Definer.memberName).run asked = (.ok answer, answered))
    (reached : (Passage.evolution σ).leads answered world) :
    Moment.OfInstance meaning prototype moments ⟨step, world⟩ := by
  cases copying with
  | absorbing returned =>
      cases resolved : world.store.has target name with
      | true =>
          rw [step?, if_pos resolved] at steps
          cases steps
          exact .assign delegates resolved
      | false =>
          rw [step?, resolved, if_neg Bool.false_ne_true, Option.map_eq_some_iff] at steps
          rcases steps with ⟨descriptor, owned, rfl⟩
          exact .define delegates (Store.ownDescriptor?_of_has resolved)
            (.inl ⟨resolved, returned, owned⟩) asks answers reached
  | materializing =>
      cases owned : world.store.ownDescriptor? target name with
      | some own => simp [step?, Store.hasOwn_eq_isSome, owned] at steps
      | none =>
          rw [step?, Store.hasOwn_eq_isSome, owned, Option.isSome_none,
            if_neg Bool.false_ne_true, Option.map_eq_some_iff] at steps
          rcases steps with ⟨descriptor, found, rfl⟩
          exact .define delegates owned (.inr (Option.filter_eq_some_iff.mp found)) asks answers
            reached

include evolving

private theorem evolving_copyMember (copying : Copying) (target : ObjectId) (definer : Definer)
    (name : String) : (copying.copyMember meaning definer target name).Evolving := by
  intro world
  rw [copying.run_copyMember meaning ⟨0⟩ [] definer target name world]
  split
  · next step _ => exact Moment.leads evolving ⟨0⟩ [] ⟨step, world⟩
  · exact (Passage.evolution σ).refl world

private theorem ofInstance_of_names {moments : List (Moment σ)} {asked answered : World σ}
    {answer : Value} (asks : ⟨.ask target, asked⟩ ∈ moments)
    (answers : (Member.read meaning target Definer.memberName).run asked = (.ok answer, answered))
    {moment : Moment σ} :
    ∀ (names : List String) (world : World σ), world.store.Rooted →
      world.store.isPrototypeOf prototype target = true →
      (Passage.evolution σ).leads answered world →
      moment ∈ copying.momentsOfNames meaning (.ofAnswer answer) target names world →
      moment.OfInstance meaning prototype moments
  | name :: names, world, rooted, delegates, reached, taken => by
      rw [momentsOfNames, List.mem_append] at taken
      rcases taken with first | rest
      · rw [Option.mem_toList, Option.map_eq_some_iff] at first
        rcases first with ⟨step, steps, rfl⟩
        exact ofInstance_of_step? steps delegates asks answers reached
      · have copied := evolving_copyMember evolving copying target (.ofAnswer answer) name world
        rcases ran : (copying.copyMember meaning (.ofAnswer answer) target name).run world with
          ⟨_ | _, later⟩
        · rw [ran] at rest
          cases rest
        · rw [ran] at rest copied
          have rootedLater := rooted.evolves copied.1
          exact ofInstance_of_names asks answers names later rootedLater
            (copied.1.extends.isPrototypeOf rooted rootedLater delegates)
            ((Passage.evolution σ).trans reached copied) rest

private theorem ofInstance (rooted : world.store.Rooted)
    (delegates : world.store.isPrototypeOf prototype target = true) :
    ∀ moment ∈ copying.moments meaning target world,
      moment.OfInstance meaning prototype (copying.moments meaning target world) := by
  have asking := Member.follows_read evolving.call target Definer.memberName world
  rw [moments, Definer.ofValue_object, Action.run_bind]
  rcases read : (Member.read meaning target Definer.memberName).run world with
    ⟨_ | answer, answered⟩
  · rw [List.forall_mem_singleton]
    exact .ask delegates
  · rw [read] at asking
    have rootedThen := rooted.evolves asking.1
    rw [List.forall_mem_cons]
    refine ⟨.ask delegates, fun moment taken => ?_⟩
    exact ofInstance_of_names evolving (List.mem_cons_self ..) read _ answered rootedThen
      (asking.1.extends.isPrototypeOf rooted rootedThen delegates)
      ((Passage.evolution σ).refl answered) taken

end Copying

include evolving

private theorem ofInstance_of_constructors :
    ∀ (constructors : List ProcedureId) (receiver : ObjectId) (world : World σ),
      world.store.Rooted → world.store.isPrototypeOf prototype receiver = true →
      ∀ moment ∈ momentsOfConstructors meaning prototype arguments constructors receiver world,
        moment.OfInstance meaning prototype
          (momentsOfConstructors meaning prototype arguments constructors receiver world)
  | [], _, _, _, _ => nofun
  | constructor :: constructors, receiver, world, rooted, delegates => by
      have calling := evolving.call constructor (.object receiver) arguments world
      rw [momentsOfConstructors, List.forall_mem_cons]
      refine ⟨.call delegates, fun moment taken => ?_⟩
      refine Moment.OfInstance.mono ?_ fun moment => List.mem_cons_of_mem _
      rcases ran : (meaning.call constructor (.object receiver) arguments).run world with
        ⟨_ | answer, called⟩
      · rw [ran] at taken
        cases taken
      rw [ran] at taken calling
      have rootedCalled := rooted.evolves calling.1
      have still := calling.1.extends.isPrototypeOf rooted rootedCalled delegates
      cases answer with
      | object returned =>
          dsimp only at taken ⊢
          split at taken
          · next itself =>
            rw [if_pos itself]
            exact ofInstance_of_constructors constructors returned called rootedCalled itself moment
              taken
          · next foreign =>
            rw [if_neg foreign]
            rcases List.mem_append.mp taken with absorbed | rest
            · exact (Copying.ofInstance evolving rootedCalled still moment absorbed).mono
                fun moment => List.mem_append_left _
            · refine Moment.OfInstance.mono ?_ fun moment => List.mem_append_right _
              have absorbing := evolving_absorb evolving receiver returned called
              rcases copied : (absorb meaning receiver returned).run called with ⟨_ | _, later⟩
              · rw [copied] at rest
                cases rest
              · rw [copied] at rest absorbing
                have rootedLater := rootedCalled.evolves absorbing.1
                exact ofInstance_of_constructors constructors receiver later rootedLater
                  (absorbing.1.extends.isPrototypeOf rootedCalled rootedLater still) moment rest
      | undefined | null | boolean | number | text | list | procedure =>
          exact ofInstance_of_constructors constructors receiver called rootedCalled still moment
            taken

private theorem ofInstance_of_completion {type : Composite} {built : ObjectId} {world : World σ}
    (rooted : world.store.Rooted)
    (delegates : world.store.isPrototypeOf prototype built = true) :
    ∀ moment ∈ type.momentsOfCompletion meaning built world,
      moment.OfInstance meaning prototype (type.momentsOfCompletion meaning built world) := by
  unfold momentsOfCompletion
  split
  · exact Copying.ofInstance evolving rooted delegates
  · exact nofun

private theorem ofInstance_of_moments {type : Composite} {receiver : Value} {world : World σ}
    (rooted : world.store.Rooted) (known : world.store.hasObject type.prototype = true) :
    ∀ moment ∈ type.moments meaning arguments receiver world,
      moment.OfInstance meaning type.prototype (type.moments meaning arguments receiver world) := by
  rcases exists_start type.prototype receiver world with ⟨start, entered, starts, ran⟩
  have rootedEntered := starts.rooted rooted
  have delegates := starts.delegates rooted known
  rw [moments, ran, List.forall_mem_cons]
  refine ⟨.enter receiver world, fun moment taken => ?_⟩
  refine Moment.OfInstance.mono ?_ fun moment => List.mem_cons_of_mem _
  rcases List.mem_append.mp taken with early | last
  · exact (ofInstance_of_constructors evolving _ start entered rootedEntered delegates moment
      early).mono fun moment => List.mem_append_left _
  · refine Moment.OfInstance.mono ?_ fun moment => List.mem_append_right _
    rcases exists_turns meaning type.prototype arguments type.bases.constructors start entered with
      ⟨calls, outcome, later, turns, constructed⟩
    rw [constructed] at last ⊢
    cases outcome with
    | error fault => cases last
    | ok built =>
        exact ofInstance_of_completion evolving
          (rootedEntered.evolves (turns.leads evolving).1)
          ((turns.delegates evolving rootedEntered delegates).2 built rfl) moment last

end Instances

/-! ### The whole construction -/

structure DefinesThroughInstance (meaning : Meaning σ) (type : Composite) (receiver : Value)
    (arguments : List Value) (world : World σ) : Prop where
  /-- It takes its steps, up to the first that fails. -/
  course : Course meaning type.prototype arguments world
    (type.moments meaning arguments receiver world)
    (ended ((type.construct meaning receiver arguments).run world).1)
    ((type.construct meaning receiver arguments).run world).2
  treated : ∀ moment ∈ type.moments meaning arguments receiver world,
    moment.OfInstance meaning type.prototype (type.moments meaning arguments receiver world)
  /-- A definer is called with the instance, the name and the descriptor as an object. -/
  called : ∀ definer target name descriptor before,
    ⟨.define (.custom definer) target name descriptor, before⟩ ∈
        type.moments meaning arguments receiver world →
      Moment.run meaning type.prototype arguments
          ⟨.define (.custom definer) target name descriptor, before⟩ = (do
        let fields ← descriptor.encode
        let _ ← Action.naming name (meaning.call definer (.object target)
          [.text name, .object fields])).run before
  /-- Without a definer a member is stored, and no code is run. -/
  stored : ∀ target name descriptor before,
    ⟨.define .raw target name descriptor, before⟩ ∈
        type.moments meaning arguments receiver world →
      Moment.run meaning type.prototype arguments
          ⟨.define .raw target name descriptor, before⟩ =
        (.ok (), { before with store := before.store.storeMember target name descriptor })
  /-- Whatever an instance owns in the end that it did not own at first, a step has given it. -/
  gained : ∀ object name, world.store.hasOwn object name = false →
    ((type.construct meaning receiver arguments).run world).2.store.hasOwn object name = true →
    ((type.construct meaning receiver arguments).run world).2.store.isPrototypeOf type.prototype
      object = true →
    ∃ moment ∈ type.moments meaning arguments receiver world,
      moment.before.store.hasOwn object name = false ∧ moment.Gives meaning arguments object name
  /-- The definer that was set on the type makes no difference. -/
  regardless : ∀ definer, ({ type with definer := definer } : Composite).construct meaning
    receiver arguments = type.construct meaning receiver arguments

private theorem gained_of_course {meaning : Meaning σ} (evolving : meaning.Evolving)
    {prototype object : ObjectId} {name : String} {arguments : List Value}
    {first last : World σ} {moments : List (Moment σ)} {result : Except Fault Unit}
    (course : Course meaning prototype arguments first moments result last)
    (unowned : first.store.hasOwn object name = false)
    (owned : last.store.hasOwn object name = true)
    (delegates : last.store.isPrototypeOf prototype object = true) :
    ∃ moment ∈ moments, moment.before.store.hasOwn object name = false ∧
      moment.Gives meaning arguments object name := by
  rcases course.exists_of_changes evolving (fun now => now.store.hasOwn object name = true)
    (Bool.eq_false_iff.mp unowned) owned with ⟨⟨step, before⟩, taken, lacks, gains, rest⟩
  have missing := Bool.eq_false_iff.mpr lacks
  refine ⟨_, taken, missing, Moment.gives missing evolving step gains ?_⟩
  rw [Store.hasOwn_eq_isSome, Option.isSome_iff_exists] at gains
  rcases gains with ⟨descriptor, found⟩
  have known := Store.hasObject_of_descriptor? (Store.descriptor?_of_own found)
  rw [← (rest.1.extends.object object known).2]
  exact Store.parent_ne_none_of_isPrototypeOf delegates

/-- Whatever definer was set on a type, a member that construction newly defines on an instance
goes through what the instance itself resolves as its definer when the copying begins: a
procedure there is called with the instance, the name and the descriptor as an object. If there
is none, the member is stored without any code being run. -/
theorem defined_through_instance {meaning : Meaning σ} (evolving : meaning.Evolving)
    {type : Composite} {receiver : Value} {arguments : List Value} {world : World σ}
    (rooted : world.store.Rooted) (known : world.store.hasObject type.prototype = true) :
    DefinesThroughInstance meaning type receiver arguments world where
  course := type.course_of_construct meaning arguments receiver world
  treated := ofInstance_of_moments evolving rooted known
  called _ _ _ _ _ _ := rfl
  stored _ _ _ _ taken :=
    Member.run_define _ (ofInstance_of_moments evolving rooted known _ taken).unowned
  gained _ _ :=
    gained_of_course evolving (type.course_of_construct meaning arguments receiver world)
  regardless _ := rfl

/-! A type whose definer notes that it was called. Its constructor answers with a foreign object,
and its table has an accessor. -/

def interceptedRoots : World Unit where
  store := { Store.initial with
    objects := #[{ members := .ofEntries [("extra", .ofValue (.text "foreign"))] },
      { members := .ofEntries [("a", ⟨.accessor (some ⟨2⟩) none, true, true⟩)] }]
    procedures := Store.initial.procedures ++
      #[{ body := .code ⟨0⟩ }, { body := .code ⟨1⟩ }, { body := .code ⟨2⟩ }] }
  codes := #[fun _ => .done (.ok (.object ⟨0⟩)), fun _ => .done (.ok (.text "computed")),
    fun _ => .ask (.note (.text "called")) fun _ => .done (.ok .undefined)]
  state := ()

def interceptedType : World Unit :=
  let composed :=
    ((({} : Composer).compose (.ofBudget 1) [.procedure ⟨1⟩, .object ⟨1⟩]).run interceptedRoots).2
  { composed with store := composed.store.setDefiner ⟨0⟩ ⟨3⟩ }

def Step.stored? : Step → Option (ObjectId × String)
  | define .raw target name _ => some (target, name)
  | _ => none

/-- Neither the absorbed member nor the accessor is defined through the definer. -/
theorem defined_through_instance_of_type :
    ∃ type later,
      interceptedType.store.composite? ⟨4⟩ = some type ∧ type.definer = some ⟨3⟩ ∧
      (type.construct (.ofBudget 2) .undefined []).run interceptedType = (.ok ⟨4⟩, later) ∧
      later.store.ownNames ⟨4⟩ = ["extra", "a"] ∧
      later.store.journal.size = interceptedType.store.journal.size ∧
      (type.moments (.ofBudget 2) [] .undefined interceptedType).filterMap
        (fun moment => moment.step.stored?) = [(⟨4⟩, "extra"), (⟨4⟩, "a")] ∧
      DefinesThroughInstance (.ofBudget 2) type .undefined [] interceptedType := by
  let type := (interceptedType.store.composite? ⟨4⟩).get!
  have found : interceptedType.store.composite? ⟨4⟩ = some type :=
    (Option.some_get! _ (by decide +kernel)).symm
  have ran := Action.run_eq_of_toOption (type.construct (.ofBudget 2) .undefined [])
    interceptedType ⟨4⟩ (by decide +kernel)
  exact ⟨type, _, found, by decide +kernel, ran, by decide +kernel, by decide +kernel,
    by decide +kernel, defined_through_instance (Meaning.evolving_ofBudget 2) (by decide +kernel)
      (by decide +kernel)⟩

end Composite

end TraitComposition
