import TraitComposition.Proofs.Composition.Presence
import TraitComposition.Proofs.Flattening.CompositionTree

/-!
Construction. An instance goes from constructor to constructor; each may answer with
another instance, which takes over, with a foreign object, which is absorbed, or with
anything else, and the first failure ends it all. Nothing that the constructors do undoes
delegation, so what is built is an instance.
-/
namespace TraitComposition

variable {σ : Type}

namespace Composite

open TraitComposition.Action (run_bind_of_ok run_bind_of_error)

section Turns

variable (meaning : Meaning σ) (prototype : ObjectId) (arguments : List Value)

inductive Turn (constructor : ProcedureId) (receiver : ObjectId) (world : World σ) :
    Except Fault ObjectId → World σ → Prop
  | failed {fault : Fault} {later : World σ}
      (ran : (meaning.call constructor (.object receiver) arguments).run world =
        (.error fault, later)) :
      Turn constructor receiver world (.error fault) later
  | replaced {returned : ObjectId} {later : World σ}
      (ran : (meaning.call constructor (.object receiver) arguments).run world =
        (.ok (.object returned), later))
      (delegates : later.store.isPrototypeOf prototype returned = true) :
      Turn constructor receiver world (.ok returned) later
  | absorbed {returned : ObjectId} {called later : World σ}
      (ran : (meaning.call constructor (.object receiver) arguments).run world =
        (.ok (.object returned), called))
      (foreign : called.store.isPrototypeOf prototype returned = false)
      (copied : (absorb meaning receiver returned).run called = (.ok (), later)) :
      Turn constructor receiver world (.ok receiver) later
  | refused {returned : ObjectId} {called later : World σ} {fault : Fault}
      (ran : (meaning.call constructor (.object receiver) arguments).run world =
        (.ok (.object returned), called))
      (foreign : called.store.isPrototypeOf prototype returned = false)
      (copied : (absorb meaning receiver returned).run called = (.error fault, later)) :
      Turn constructor receiver world (.error fault) later
  | ignored {answer : Value} {later : World σ}
      (ran : (meaning.call constructor (.object receiver) arguments).run world =
        (.ok answer, later))
      (simple : answer.asObject = none) :
      Turn constructor receiver world (.ok receiver) later

/-- The turns of constructors: which of them were called, in order, and each on what; and
how it ended, at the first failure or with all of them called. -/
inductive Turns : List ProcedureId → ObjectId → World σ → List (ProcedureId × ObjectId) →
    Except Fault ObjectId → World σ → Prop
  | done (receiver : ObjectId) (world : World σ) : Turns [] receiver world [] (.ok receiver) world
  | stopped {constructor : ProcedureId} {constructors : List ProcedureId} {receiver : ObjectId}
      {world later : World σ} {fault : Fault}
      (turn : Turn meaning prototype arguments constructor receiver world (.error fault) later) :
      Turns (constructor :: constructors) receiver world [(constructor, receiver)]
        (.error fault) later
  | next {constructor : ProcedureId} {constructors : List ProcedureId} {receiver next : ObjectId}
      {world between later : World σ} {calls : List (ProcedureId × ObjectId)}
      {outcome : Except Fault ObjectId}
      (turn : Turn meaning prototype arguments constructor receiver world (.ok next) between)
      (rest : Turns constructors next between calls outcome later) :
      Turns (constructor :: constructors) receiver world ((constructor, receiver) :: calls)
        outcome later

theorem exists_turn (constructor : ProcedureId) (receiver : ObjectId) (world : World σ) :
    ∃ outcome later, Turn meaning prototype arguments constructor receiver world outcome later ∧
      ∀ constructors,
        (runConstructors meaning prototype arguments (constructor :: constructors) receiver).run
            world =
          match outcome with
          | .ok next => (runConstructors meaning prototype arguments constructors next).run later
          | .error fault => (.error fault, later) := by
  rcases ran : (meaning.call constructor (.object receiver) arguments).run world with
    ⟨fault | answer, called⟩
  · exact ⟨_, _, .failed ran, fun constructors => run_bind_of_error _ ran⟩
  cases answer with
  | object returned =>
      cases delegates : called.store.isPrototypeOf prototype returned with
      | true =>
          refine ⟨_, _, .replaced ran delegates, fun constructors => ?_⟩
          rw [runConstructors, run_bind_of_ok _ ran, Action.run_getStore_bind, if_pos delegates]
      | false =>
          have foreign : ¬called.store.isPrototypeOf prototype returned = true := by
            rw [delegates]
            exact Bool.false_ne_true
          rcases copied : (absorb meaning receiver returned).run called with ⟨fault | _, later⟩
          · refine ⟨_, _, .refused ran delegates copied, fun constructors => ?_⟩
            rw [runConstructors, run_bind_of_ok _ ran, Action.run_getStore_bind, if_neg foreign]
            exact run_bind_of_error _ copied
          · refine ⟨_, _, .absorbed ran delegates copied, fun constructors => ?_⟩
            rw [runConstructors, run_bind_of_ok _ ran, Action.run_getStore_bind, if_neg foreign]
            exact run_bind_of_ok _ copied
  | undefined | null | boolean | number | text | list | procedure =>
      exact ⟨_, _, .ignored ran rfl, fun constructors => run_bind_of_ok _ ran⟩

theorem exists_turns :
    ∀ (constructors : List ProcedureId) (receiver : ObjectId) (world : World σ),
      ∃ calls outcome later,
        Turns meaning prototype arguments constructors receiver world calls outcome later ∧
        (runConstructors meaning prototype arguments constructors receiver).run world =
          (outcome, later)
  | [], receiver, world => ⟨[], _, _, .done receiver world, rfl⟩
  | constructor :: constructors, receiver, world => by
      rcases exists_turn meaning prototype arguments constructor receiver world with
        ⟨fault | next, between, turn, ran⟩
      · exact ⟨_, _, _, .stopped turn, ran constructors⟩
      · rcases exists_turns constructors next between with ⟨calls, outcome, later, rest, ranRest⟩
        exact ⟨_, _, _, .next turn rest, (ran constructors).trans ranRest⟩

end Turns

namespace Turn

variable {meaning : Meaning σ} {prototype : ObjectId} {arguments : List Value}
  {constructor : ProcedureId} {receiver : ObjectId} {world later : World σ}
  {outcome : Except Fault ObjectId}
  (turn : Turn meaning prototype arguments constructor receiver world outcome later)
  (evolving : meaning.Evolving)

include turn evolving

private theorem leads : (Passage.evolution σ).leads world later := by
  have called := evolving.call constructor (.object receiver) arguments world
  cases turn with
  | failed ran | replaced ran | ignored ran =>
      rw [ran] at called
      exact called
  | @absorbed returned between _ ran _ copied =>
      have absorbed := evolving_absorb evolving receiver returned between
      rw [copied] at absorbed
      rw [ran] at called
      exact (Passage.evolution σ).trans called absorbed
  | @refused returned between _ _ ran _ copied =>
      have absorbed := evolving_absorb evolving receiver returned between
      rw [copied] at absorbed
      rw [ran] at called
      exact (Passage.evolution σ).trans called absorbed

theorem keeps (rooted : world.store.Rooted) {object : ObjectId}
    (delegates : world.store.isPrototypeOf prototype object = true) :
    later.store.isPrototypeOf prototype object = true := by
  have evolution := (turn.leads evolving).1
  exact evolution.extends.isPrototypeOf rooted (rooted.evolves evolution) delegates

theorem delegates (rooted : world.store.Rooted)
    (starts : world.store.isPrototypeOf prototype receiver = true) {next : ObjectId}
    (succeeded : outcome = .ok next) : later.store.isPrototypeOf prototype next = true := by
  have kept := turn.keeps evolving rooted starts
  cases turn with
  | failed | refused => cases succeeded
  | replaced _ delegates =>
      cases succeeded
      exact delegates
  | absorbed | ignored =>
      cases succeeded
      exact kept

end Turn

namespace Turns

variable {meaning : Meaning σ} {prototype : ObjectId} {arguments : List Value}
  {constructors : List ProcedureId} {receiver : ObjectId} {world later : World σ}
  {calls : List (ProcedureId × ObjectId)} {outcome : Except Fault ObjectId}

theorem calls_prefix
    (turns : Turns meaning prototype arguments constructors receiver world calls outcome later) :
    calls.map Prod.fst <+: constructors := by
  induction turns with
  | done => exact List.prefix_refl _
  | stopped => exact ⟨_, rfl⟩
  | next turn rest induction => exact List.cons_prefix_cons.mpr ⟨rfl, induction⟩

private theorem calls_eq {built : ObjectId}
    (turns : Turns meaning prototype arguments constructors receiver world calls (.ok built)
      later) :
    calls.map Prod.fst = constructors := by
  generalize equal : Except.ok built = outcome at turns
  induction turns with
  | done => rfl
  | stopped => cases equal
  | next turn rest induction => exact congrArg _ (induction equal)

theorem leads
    (turns : Turns meaning prototype arguments constructors receiver world calls outcome later)
    (evolving : meaning.Evolving) : (Passage.evolution σ).leads world later := by
  induction turns with
  | done => exact (Passage.evolution σ).refl _
  | stopped turn => exact turn.leads evolving
  | next turn rest induction => exact (Passage.evolution σ).trans (turn.leads evolving) induction

/-- Whatever the constructors do, every one is called on an instance, and the last instance
is what they lead to. -/
theorem delegates
    (turns : Turns meaning prototype arguments constructors receiver world calls outcome later)
    (evolving : meaning.Evolving) (rooted : world.store.Rooted)
    (starts : world.store.isPrototypeOf prototype receiver = true) :
    (∀ call ∈ calls, later.store.isPrototypeOf prototype call.2 = true) ∧
      ∀ built, outcome = .ok built → later.store.isPrototypeOf prototype built = true := by
  induction turns with
  | done =>
      refine ⟨by simp, fun built equal => ?_⟩
      cases equal
      exact starts
  | stopped turn =>
      refine ⟨fun call member => ?_, fun built equal => nomatch equal⟩
      obtain rfl := List.mem_singleton.mp member
      exact turn.keeps evolving rooted starts
  | next turn rest induction =>
      have evolution := (turn.leads evolving).1
      have rootedThen := rooted.evolves evolution
      have further := (rest.leads evolving).1
      rcases induction rootedThen (turn.delegates evolving rooted starts rfl) with
        ⟨called, built⟩
      refine ⟨fun call member => ?_, built⟩
      rcases List.mem_cons.mp member with rfl | member
      · exact further.extends.isPrototypeOf rootedThen (rootedThen.evolves further)
          (turn.keeps evolving rooted starts)
      · exact called call member

end Turns

/-! ### The whole construction -/

/-- What construction starts from: the receiver if it is an instance, a new one otherwise. -/
inductive Start (prototype : ObjectId) (world : World σ) : Value → ObjectId → World σ → Prop
  | given {object : ObjectId} (delegates : world.store.isPrototypeOf prototype object = true) :
      Start prototype world (.object object) object world
  | fresh {receiver : Value}
      (foreign : ∀ object, receiver = .object object →
        world.store.isPrototypeOf prototype object = false) :
      Start prototype world receiver world.store.nextObject
        { world with store := world.store.delegating prototype }

theorem exists_start (prototype : ObjectId) (receiver : Value) (world : World σ) :
    ∃ start entered, Start prototype world receiver start entered ∧
      (candidate prototype receiver).run world = (.ok start, entered) := by
  cases receiver with
  | object object =>
      cases delegates : world.store.isPrototypeOf prototype object with
      | true =>
          refine ⟨object, world, .given delegates, ?_⟩
          rw [candidate, Action.run_getStore_bind, if_pos delegates]
          rfl
      | false =>
          refine ⟨_, _, .fresh fun other equal => ?_, ?_⟩
          · cases equal
            exact delegates
          · rw [candidate, Action.run_getStore_bind, delegates]
            rfl
  | undefined | null | boolean | number | text | list | procedure =>
      exact ⟨_, _, .fresh (fun _ equal => nomatch equal), rfl⟩

theorem Start.delegates {prototype start : ObjectId} {receiver : Value} {world entered : World σ}
    (starts : Start prototype world receiver start entered) (rooted : world.store.Rooted)
    (known : world.store.hasObject prototype = true) :
    entered.store.isPrototypeOf prototype start = true := by
  cases starts with
  | given delegates => exact delegates
  | fresh =>
      have table := Store.AddsTable.of_delegating known
      have behind := table.ancestors_nextObject rooted known
      rw [Store.isPrototypeOf, decide_eq_true_iff, behind]
      exact List.mem_cons_self ..

theorem Start.rooted {prototype start : ObjectId} {receiver : Value} {world entered : World σ}
    (starts : Start prototype world receiver start entered) (rooted : world.store.Rooted) :
    entered.store.Rooted := by
  cases starts with
  | given => exact rooted
  | fresh => exact rooted.createObject (some prototype)

def complete (type : Composite) (meaning : Meaning σ) (built : ObjectId) : Action σ ObjectId := do
  if type.composer.config.materializeAccessors then
    materialize meaning built
  return built

theorem construct_eq (type : Composite) (meaning : Meaning σ) (receiver : Value)
    (arguments : List Value) :
    type.construct meaning receiver arguments = (do
      let start ← candidate type.prototype receiver
      let built ← runConstructors meaning type.prototype arguments type.bases.constructors start
      type.complete meaning built) := rfl

theorem exists_course (type : Composite) (meaning : Meaning σ) (receiver : Value)
    (arguments : List Value) (world : World σ) :
    ∃ start entered calls outcome later,
      Start type.prototype world receiver start entered ∧
      Turns meaning type.prototype arguments type.bases.constructors start entered calls outcome
        later ∧
      (type.construct meaning receiver arguments).run world =
        (Action.ofExcept outcome >>= type.complete meaning).run later := by
  rcases exists_start type.prototype receiver world with ⟨start, entered, starts, candidate⟩
  rcases exists_turns meaning type.prototype arguments type.bases.constructors start entered with
    ⟨calls, outcome, later, turns, ran⟩
  refine ⟨start, entered, calls, outcome, later, starts, turns, ?_⟩
  rw [construct_eq, run_bind_of_ok _ candidate, Action.run_bind, ran, Action.run_bind,
    Action.run_ofExcept]

theorem run_complete (type : Composite) (meaning : Meaning σ) {built reached : ObjectId}
    {world later : World σ} (ran : (type.complete meaning built).run world = (.ok reached, later)) :
    reached = built := by
  unfold complete at ran
  split at ran
  · rcases Action.succeeded_of_bind ran with ⟨_, _, _, last⟩
    cases last
    rfl
  · cases ran
    rfl

theorem evolving_complete (type : Composite) {meaning : Meaning σ} (evolving : meaning.Evolving)
    (built : ObjectId) : (type.complete meaning built).Evolving := by
  unfold complete
  split
  · exact Action.Follows.bind (evolving_materialize evolving built) fun _ => Action.Follows.pure _
  · exact Action.Follows.pure _

end Composite

/-! ### Types that were composed -/

namespace CompositionTree

def Standing (store : Store) : CompositionTree → Prop
  | procedure _ => True
  | table reference => store.hasObject reference = true
  | composite type _ =>
      ∃ built, store.composite? type = some built ∧ store.hasObject built.prototype = true

private theorem Standing.extends {before after : Store} {tree : CompositionTree}
    (standing : tree.Standing before) (extends_ : before.Extends after) :
    tree.Standing after := by
  cases tree with
  | procedure reference => trivial
  | table reference => exact (extends_.object reference standing).1
  | composite type sources =>
      rcases standing with ⟨built, found, known⟩
      rcases extends_.composite? found with ⟨definer, kept⟩
      exact ⟨_, kept, (extends_.object _ known).1⟩

private theorem standing_of_composed {budget : Nat} {composer : Composer} {world later : World σ}
    {sources : List CompositionTree} {type : ProcedureId}
    (standing : ∀ source ∈ sources, source.Standing world.store)
    (ran : (composer.compose (.ofBudget budget) (sources.map value)).run world =
      (.ok type, later)) :
    (composite type sources).Standing later.store := by
  rcases Composer.compose_succeeded ran with ⟨prototype, merged, ranTable, rfl, rfl⟩
  have first : ∀ table, (sources.map value).headD .undefined = .object table →
      world.store.hasObject table = true := by
    intro table equal
    cases sources with
    | nil => cases equal
    | cons source sources =>
        have present := standing source (List.mem_cons_self ..)
        cases source with
        | table reference =>
            cases equal
            exact present
        | procedure | composite => cases equal
  have known := Composer.hasObject_of_composeTable (Meaning.evolving_ofBudget budget) first ranTable
  have asked := Store.evolves_prototypes (Composer.chainSources prototype (sources.map value))
    merged.store
  have entered := (asked.extends.object _ known).1
  exact ⟨_, composer.composite?_enterType _ prototype merged.store,
    ((Store.Extends.of_addComposite _ prototype _ composer).object _ entered).1⟩

theorem Grown.standing {tree : CompositionTree} {world : World σ} (grown : tree.Grown world) :
    tree.Standing world.store := by
  induction grown with
  | procedure plain => trivial
  | table known => exact known
  | composed composer budget grown ran induction => exact standing_of_composed induction ran
  | @extended world later base built ingredients sources type budget grownBase found grown ran
      standsBase induction =>
      rcases grownBase.flattened with ⟨known, foundKnown, same, _⟩
      rw [found] at foundKnown
      cases foundKnown
      rw [Composite.extend, same] at ran
      have standing : ∀ source ∈ composite base ingredients :: sources,
          source.Standing world.store := by
        intro source member
        rcases List.mem_cons.mp member with rfl | member
        · exact standsBase
        · exact induction source member
      exact standing_of_composed standing ran
  | later grown evolution induction => exact induction.extends evolution.1.extends

theorem Grown.nodup_constructors {type : ProcedureId} {sources : List CompositionTree}
    {world : World σ} (grown : (composite type sources).Grown world) {built : Composite}
    (found : world.store.composite? type = some built) : built.bases.constructors.Nodup := by
  rcases grown.flattened with ⟨known, foundKnown, _, constructors⟩
  rw [found] at foundKnown
  cases foundKnown
  rw [constructors]
  exact FirstSeen.nodup_ofList _

end CompositionTree

namespace Composite

open CompositionTree (Grown)

theorem run_call_type {type : ProcedureId} {built : Composite} {world : World σ}
    (found : world.store.composite? type = some built) (budget : Nat) (receiver : Value)
    (arguments : List Value) :
    ((Meaning.ofBudget (budget + 1)).call type receiver arguments).run world =
      (built.construct (.ofBudget budget) receiver arguments >>= fun instanceObject =>
        pure (.object instanceObject)).run world := by
  rcases Store.body_of_composite? found with ⟨reference, body, known⟩
  rw [Meaning.ofBudget_succ, Meaning.step, Action.run_getStore_bind, Procedure.call]
  simp only [body, Action.run_getStore_bind, known]

/-- The protocol of construction. From the receiver, if it is an instance, or a new one, an
instance goes from constructor to constructor, in their order and each of them once, up to
the first failure, which is then that of the construction. What is built, whatever the
constructors do, is an instance. -/
theorem constructs_instance {type : ProcedureId} {sources : List CompositionTree}
    {world : World σ} (grown : (CompositionTree.composite type sources).Grown world)
    (rooted : world.store.Rooted) (budget : Nat) (receiver : Value) (arguments : List Value) :
    ∃ built : Composite, world.store.composite? type = some built ∧
      built.bases.constructors.Nodup ∧
      ((Meaning.ofBudget (budget + 1)).call type receiver arguments).run world =
        (built.construct (.ofBudget budget) receiver arguments >>= fun instanceObject =>
          pure (.object instanceObject)).run world ∧
      (∃ start entered calls outcome later,
        Start built.prototype world receiver start entered ∧
        entered.store.isPrototypeOf built.prototype start = true ∧
        Turns (.ofBudget budget) built.prototype arguments built.bases.constructors start entered
          calls outcome later ∧
        calls.map Prod.fst <+: built.bases.constructors ∧
        (∀ call ∈ calls, later.store.isPrototypeOf built.prototype call.2 = true) ∧
        match outcome with
        | .error fault =>
            (built.construct (.ofBudget budget) receiver arguments).run world =
              (.error fault, later)
        | .ok instanceObject =>
            calls.map Prod.fst = built.bases.constructors ∧
              (built.construct (.ofBudget budget) receiver arguments).run world =
                (built.complete (.ofBudget budget) instanceObject).run later) ∧
      ∀ instanceObject later,
        (built.construct (.ofBudget budget) receiver arguments).run world =
          (.ok instanceObject, later) →
        later.store.isPrototypeOf built.prototype instanceObject = true := by
  rcases grown.standing with ⟨built, found, known⟩
  have evolving : (Meaning.ofBudget budget : Meaning σ).Evolving := Meaning.evolving_ofBudget budget
  rcases built.exists_course (.ofBudget budget) receiver arguments world with
    ⟨start, entered, calls, outcome, later, starts, turns, ran⟩
  have rootedThen := starts.rooted rooted
  have rootedLater := rootedThen.evolves (turns.leads evolving).1
  have delegates := starts.delegates rooted known
  rcases turns.delegates evolving rootedThen delegates with ⟨called, last⟩
  refine ⟨built, found, grown.nodup_constructors found, run_call_type found budget _ _,
    ⟨start, entered, calls, outcome, later, starts, delegates, turns, turns.calls_prefix, called,
      ?_⟩, fun instanceObject final succeeded => ?_⟩
  · cases outcome with
    | error fault => exact ran
    | ok instanceObject => exact ⟨turns.calls_eq, ran⟩
  · rw [ran] at succeeded
    cases outcome with
    | error fault => cases succeeded
    | ok reached =>
        obtain rfl := built.run_complete _ succeeded
        have completed := built.evolving_complete evolving instanceObject later
        change (built.complete (.ofBudget budget) instanceObject).run later = _ at succeeded
        rw [succeeded] at completed
        exact completed.1.extends.isPrototypeOf rootedLater (rootedLater.evolves completed.1)
          (last instanceObject rfl)

/-! A type with two constructors: the first answers with a foreign object, the second with a
text. -/

def foreignRoots : World Unit where
  store := { Store.initial with
    objects := #[{ members := .ofEntries [("kind", .ofValue (.text "foreign"))] }]
    procedures := Store.initial.procedures ++ #[{ body := .code ⟨0⟩ }, { body := .code ⟨1⟩ }] }
  codes := #[fun _ => .done (.ok (.object ⟨0⟩)), fun _ => .done (.ok (.text "kept"))]
  state := ()

def foreignType : World Unit :=
  ((CompositionTree.composing [.procedure ⟨1⟩, .procedure ⟨2⟩]).run foreignRoots).2

theorem constructs_instance_of_foreign :
    ∃ built instanceObject later, foreignType.store.composite? ⟨3⟩ = some built ∧
      (built.construct (.ofBudget 3) (.object ⟨0⟩) [.null]).run foreignType =
        (.ok instanceObject, later) ∧
      later.store.isPrototypeOf built.prototype instanceObject = true := by
  have ran := Action.run_eq_of_toOption
    (CompositionTree.composing [.procedure ⟨1⟩, .procedure ⟨2⟩]) foreignRoots ⟨3⟩
    (by decide +kernel)
  have grown : (CompositionTree.composite ⟨3⟩ [.procedure ⟨1⟩, .procedure ⟨2⟩]).Grown
      foreignType := by
    refine .composed {} 0 (fun source member => ?_) ran
    rcases List.mem_pair.mp member with rfl | rfl <;> exact .procedure (by decide)
  rcases constructs_instance grown (by decide +kernel) 3 (.object ⟨0⟩) [.null] with
    ⟨built, found, _, _, _, instances⟩
  obtain rfl : (foreignType.store.composite? ⟨3⟩).get! = built := by rw [found]; rfl
  have succeeded := Action.run_eq_of_toOption
    ((foreignType.store.composite? ⟨3⟩).get!.construct (.ofBudget 3) (.object ⟨0⟩) [.null])
    foreignType ⟨4⟩ (by decide +kernel)
  exact ⟨_, _, _, found, succeeded, instances _ _ succeeded⟩

end Composite

end TraitComposition
