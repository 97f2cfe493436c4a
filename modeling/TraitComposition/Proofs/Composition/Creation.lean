import TraitComposition.Proofs.Composition.Construction
import TraitComposition.Proofs.Composition.Fulfillment
import TraitComposition.Proofs.Composition.Installations
import TraitComposition.Proofs.Merge.Names

/-!
Creation. The sources are merged into a new object that delegates to the table of the base, and
then the base and the sources are called on it, one after the other. A type among them keeps the
object if that is one of its instances. Otherwise it answers with a new instance of its own, which
takes over, and the object with the merged members is left behind.
-/
namespace TraitComposition

variable {σ : Type}

open TraitComposition.Action (Follows succeeded_of_bind run_bind_of_ok)

/-! ### Constructors that answer with no object -/

namespace World

/-- Whether a procedure that is called on an object never answers with an object, whenever and
however deep that is. -/
def AnswersSimply (start : World σ) (procedure : ProcedureId) : Prop :=
  ∀ (budget : Nat) (now : World σ), (Passage.evolution σ).leads start now →
    ∀ object answer later,
      ((Meaning.ofBudget budget).call procedure (.object object) []).run now = (.ok answer, later) →
        answer.asObject = none

def KeepsReceiver (start : World σ) (procedure : ProcedureId) : Prop :=
  ∀ (budget : Nat) (now : World σ), (Passage.evolution σ).leads start now →
    ∀ object, now.store.hasObject object = true →
      now.store.KeepsNames object
        (((Meaning.ofBudget budget).call procedure (.object object) []).run now).2.store

private theorem AnswersSimply.later {start later : World σ} {procedure : ProcedureId}
    (simple : start.AnswersSimply procedure) (leads : (Passage.evolution σ).leads start later) :
    later.AnswersSimply procedure :=
  fun budget now further => simple budget now ((Passage.evolution σ).trans leads further)

private theorem KeepsReceiver.later {start later : World σ} {procedure : ProcedureId}
    (keeps : start.KeepsReceiver procedure) (leads : (Passage.evolution σ).leads start later) :
    later.KeepsReceiver procedure :=
  fun budget now further => keeps budget now ((Passage.evolution σ).trans leads further)

section Code

variable {start : World σ} {procedure : ProcedureId} {code : CodeId}
  (body : (start.store.procedure procedure).body = .code code)
  (written : code.index < start.codes.size)

include body written

private theorem answersSimply_of_code
    (simply : ∀ inner now object answer later,
      ((start.code code (.call (.object object) [])).run (.ofBudget inner)).run now =
        (.ok answer, later) → answer.asObject = none) : start.AnswersSimply procedure := by
  intro budget now leads object answer later ran
  rcases run_call_of_code body written leads budget (.object object) [] with
    ⟨_, ended⟩ | ⟨inner, entered⟩
  · cases ended.symm.trans ran
  · exact simply inner now object answer later (entered.symm.trans ran)

private theorem keepsReceiver_of_done {result : Except Fault Value}
    (done : ∀ entry, start.code code entry = .done result) : start.KeepsReceiver procedure := by
  intro budget now leads object _
  rcases run_call_of_code body written leads budget (.object object) [] with
    ⟨_, ended⟩ | ⟨inner, entered⟩
  · rw [ended]
    exact .refl _ _
  · rw [entered, done, Program.run, Action.run_ofExcept]
    exact .refl _ _

end Code

end World

def Passage.keepingNames (σ : Type) (object : ObjectId) : Passage σ where
  leads before after := before.store.Rooted → before.store.hasObject object = true →
    before.store.KeepsNames object after.store ∧
      after.store.Rooted ∧ after.store.hasObject object = true
  refl world rooted known := ⟨.refl object world.store, rooted, known⟩
  trans start rest rooted known := by
    rcases start rooted known with ⟨names, rootedThen, knownThen⟩
    rcases rest rootedThen knownThen with ⟨more, rootedNow, knownNow⟩
    exact ⟨names.trans more, rootedNow, knownNow⟩

namespace Composite

section Instance

variable {start now later : World σ} (leads : (Passage.evolution σ).leads start now)
  {budget : Nat} {constructors : List ProcedureId}
  (simple : ∀ constructor ∈ constructors, start.AnswersSimply constructor)

include leads simple

theorem runConstructors_of_simple {prototype instanceObject built : ObjectId}
    (ran : (runConstructors (.ofBudget budget) prototype [] constructors instanceObject).run now =
      (.ok built, later)) :
    built = instanceObject ∧ (Passage.evolution σ).leads now later ∧
      (now.store.hasObject instanceObject = true →
        (∀ constructor ∈ constructors, start.KeepsReceiver constructor) →
        now.store.KeepsNames instanceObject later.store) := by
  induction constructors generalizing now with
  | nil =>
      cases ran
      exact ⟨rfl, (Passage.evolution σ).refl _, fun _ _ => .refl _ _⟩
  | cons constructor constructors induction =>
      rw [List.forall_mem_cons] at simple
      rcases succeeded_of_bind ran with ⟨answer, between, called, rest⟩
      have simply := simple.1 budget now leads instanceObject answer between called
      have evolution := (Meaning.evolving_ofBudget budget).call constructor
        (.object instanceObject) [] now
      rw [called] at evolution
      have same : (runConstructors (.ofBudget budget) prototype [] constructors
          instanceObject).run between = (.ok built, later) := by
        cases answer with
        | object returned => cases simply
        | _ => exact rest
      rcases induction ((Passage.evolution σ).trans leads evolution) simple.2 same with
        ⟨equal, further, names⟩
      refine ⟨equal, (Passage.evolution σ).trans evolution further, fun known keeps => ?_⟩
      rw [List.forall_mem_cons] at keeps
      have kept := keeps.1 budget now leads instanceObject known
      rw [called] at kept
      exact kept.trans (names (evolution.1.extends.object _ known).1 keeps.2)

end Instance

theorem keepsNames_of_materialize (meaning : Meaning σ) {target : ObjectId} {world : World σ}
    (rooted : world.store.Rooted) (known : world.store.hasObject target = true)
    (missing : world.store.has target Definer.memberName = false) :
    world.store.KeepsNames target ((materialize meaning target).run world).2.store := by
  have each (name : String) :
      Follows (Passage.keepingNames σ target) (materializeMember meaning .raw target name) := by
    apply Follows.getStore_bind
    intro now rootedNow knownNow
    split
    · exact (Passage.keepingNames σ target).refl now rootedNow knownNow
    · split
      · next descriptor resolved =>
        have settled := Store.has_of_descriptor? resolved
        have changes := Store.ChangesWithin.of_storeMember now.store target name descriptor
        split
        · rw [Definer.define, Member.define, Action.run_getStore_bind]
          split
          · exact ⟨.of_storeMember rootedNow knownNow descriptor (.inl settled),
              changes.rooted rootedNow, (changes.extends_.object _ knownNow).1⟩
          · exact (Passage.keepingNames σ target).refl now rootedNow knownNow
        · exact (Passage.keepingNames σ target).refl now rootedNow knownNow
      · exact (Passage.keepingNames σ target).refl now rootedNow knownNow
  rw [materialize, run_bind_of_ok _ (Definer.run_ofValue_of_missing meaning missing),
    Action.run_getStore_bind]
  exact (Follows.forM each _ world rooted known).1

private theorem keepsNames_of_complete (type : Composite) (meaning : Meaning σ) {built : ObjectId}
    {world : World σ} (rooted : world.store.Rooted) (known : world.store.hasObject built = true)
    (missing : world.store.has built Definer.memberName = false) :
    world.store.KeepsNames built ((type.complete meaning built).run world).2.store := by
  rw [complete]
  split
  · rw [Action.reached_bind_pure]
    exact keepsNames_of_materialize meaning rooted known missing
  · exact .refl _ _

theorem construct_of_simple {type : Composite} {start now later : World σ} {budget : Nat}
    {receiver built : ObjectId} (leads : (Passage.evolution σ).leads start now)
    (rooted : now.store.Rooted) (prototype : now.store.hasObject type.prototype = true)
    (known : now.store.hasObject receiver = true)
    (simple : ∀ constructor ∈ type.bases.constructors, start.AnswersSimply constructor)
    (ran : (type.construct (.ofBudget budget) (.object receiver) []).run now = (.ok built, later)) :
    (now.store.isPrototypeOf type.prototype receiver = true →
      built = receiver ∧
        (now.store.has receiver Definer.memberName = false →
          (∀ constructor ∈ type.bases.constructors, start.KeepsReceiver constructor) →
          now.store.KeepsNames receiver later.store)) ∧
      (now.store.isPrototypeOf type.prototype receiver = false →
        later.store.parent built = some type.prototype) := by
  rcases exists_start type.prototype (.object receiver) now with ⟨first, entered, starts, candidate⟩
  have entering : (Passage.evolution σ).leads now entered := by
    have follows := Passage.bears_evolution.follows_candidate type.prototype (.object receiver) now
    rw [candidate] at follows
    exact follows
  rw [construct_eq, run_bind_of_ok _ candidate] at ran
  rcases succeeded_of_bind ran with ⟨reached, constructed, turns, completes⟩
  obtain rfl := type.run_complete _ completes
  rcases runConstructors_of_simple ((Passage.evolution σ).trans leads entering) simple turns with
    ⟨rfl, further, names⟩
  have completed := type.evolving_complete (Meaning.evolving_ofBudget budget) built constructed
  rw [completes] at completed
  cases starts with
  | given delegates =>
      refine ⟨fun _ => ⟨rfl, fun missing keeps => ?_⟩, fun foreign => ?_⟩
      · have kept := names known keeps
        have last := keepsNames_of_complete type (.ofBudget budget)
          (rooted.evolves further.1) (further.1.extends.object _ known).1 (kept.definer missing)
        rw [completes] at last
        exact kept.trans last
      · rw [delegates] at foreign
        cases foreign
  | fresh foreign =>
      refine ⟨fun delegates => ?_, fun _ => ?_⟩
      · rw [foreign receiver rfl] at delegates
        cases delegates
      · have table := Store.AddsTable.of_delegating prototype
        have evolution := further.1.trans completed.1
        exact (evolution.extends.object _ table.hasObject_nextObject).2.trans table.parent

theorem exists_of_call_type {type : ProcedureId} {built : Composite} {now later : World σ}
    (found : now.store.composite? type = some built) {budget : Nat} {receiver answer : Value}
    {arguments : List Value}
    (ran : ((Meaning.ofBudget budget).call type receiver arguments).run now = (.ok answer, later)) :
    ∃ inner reached, answer = .object reached ∧
      (built.construct (.ofBudget inner) receiver arguments).run now = (.ok reached, later) := by
  cases budget with
  | zero => cases ran
  | succ inner =>
      rw [run_call_type found] at ran
      rcases succeeded_of_bind ran with ⟨reached, _, constructed, last⟩
      cases last
      exact ⟨inner, reached, rfl, constructed⟩

end Composite

/-! ### The line of a created object

The object stays where it is if the types among the sources have their tables on its line of
delegation. -/

namespace Store

/-- What a created object delegates to once a source was called on it: a type whose instance it
is not brings an instance of its own. -/
def lineAfter (store : Store) (line : ObjectId) : Value → ObjectId
  | .procedure procedure =>
      match store.composite? procedure with
      | some type => if type.prototype ∈ store.ancestry line then line else type.prototype
      | none => line
  | _ => line

def settledLine (store : Store) (line : ObjectId) (sources : List Value) : ObjectId :=
  sources.foldl store.lineAfter line

theorem forall_mem_constructors {store : Store} {sources : List Value}
    {property : ProcedureId → Prop} :
    (∀ constructor ∈ store.constructors sources, property constructor) ↔
      ∀ source ∈ sources, ∀ constructor ∈ store.sourceConstructors source,
        property constructor := by
  simp only [constructors, FirstSeen.mem_ofList, List.forall_mem_flatMap]

def OnLine (store : Store) (line : ObjectId) (sources : List Value) : Prop :=
  ∀ type built, .procedure type ∈ sources → store.composite? type = some built →
    built.prototype ∈ store.ancestry line

private theorem OnLine.lineAfter_eq {store : Store} {line : ObjectId} {source : Value}
    {sources : List Value} (onLine : store.OnLine line (source :: sources)) :
    store.lineAfter line source = line := by
  unfold lineAfter
  split
  · split
    · next type built found => exact if_pos (onLine _ built (List.mem_cons_self ..) found)
    · rfl
  · rfl

theorem OnLine.of_fronts {store : Store} {base : Value} {table : ObjectId} {sources : List Value}
    (fronts : store.Fronts base table) (onLine : store.OnLine table sources) :
    store.OnLine table (base :: sources) := by
  intro type built member found
  rcases List.mem_cons.mp member with rfl | member
  · have same := fronts.prototypeOf_eq.symm.trans (prototypeOf_of_composite? found)
    obtain rfl : table = built.prototype := congrArg Prod.fst same
    rw [ancestry_eq_cons]
    exact List.mem_cons_self ..
  · exact onLine type built member found

private theorem OnLine.tail {store : Store} {line : ObjectId} {source : Value}
    {sources : List Value}
    (onLine : store.OnLine line (source :: sources)) : store.OnLine line sources :=
  fun type built member found => onLine type built (List.mem_cons_of_mem _ member) found

end Store

namespace Composer

open Store (ChangesWithin)

theorem runInitializers_procedure (meaning : Meaning σ) (initializer : ProcedureId)
    (sources : List Value) (instanceObject : ObjectId) :
    runInitializers meaning (.procedure initializer :: sources) instanceObject = (do
      let answer ← meaning.call initializer (.object instanceObject) []
      runInitializers meaning sources (answer.asObject.getD instanceObject)) := by
  refine bind_congr fun answer => ?_
  cases answer <;> rfl

section Initializers

variable {start now later : World σ} {budget : Nat}

structure Initialized (start : World σ) (line : ObjectId) (source : Value)
    (receiver : ObjectId) (now : World σ) (next : ObjectId) (later : World σ) : Prop where
  leads : (Passage.evolution σ).leads start later
  parent : later.store.parent next = some (start.store.lineAfter line source)
  known : start.store.hasObject (start.store.lineAfter line source) = true
  same : start.store.OnLine line [source] → next = receiver
  names : start.store.OnLine line [source] → now.store.has receiver Definer.memberName = false →
    (∀ constructor ∈ start.store.sourceConstructors source, start.KeepsReceiver constructor) →
    now.store.KeepsNames receiver later.store

variable (rooted : start.store.Rooted) (leads : (Passage.evolution σ).leads start now)
  {line receiver : ObjectId} (parent : now.store.parent receiver = some line)
  (known : start.store.hasObject line = true)

include rooted leads parent known

private theorem initialized_of_call {procedure : ProcedureId} {answer : Value}
    (present : start.store.Present (.procedure procedure))
    (simple : ∀ constructor ∈ start.store.sourceConstructors (.procedure procedure),
      start.AnswersSimply constructor)
    (ran : ((Meaning.ofBudget budget).call procedure (.object receiver) []).run now =
      (.ok answer, later)) :
    Initialized start line (.procedure procedure) receiver now (answer.asObject.getD receiver)
      later := by
  have rootedNow := rooted.evolves leads.1
  have knownReceiver := Store.hasObject_of_parent parent
  have called := (Meaning.evolving_ofBudget budget).call procedure (.object receiver) [] now
  rw [ran] at called
  have leadsLater := (Passage.evolution σ).trans leads called
  have kept : later.store.parent receiver = some line :=
    (called.1.extends.object _ knownReceiver).2.trans parent
  cases present with
  | @plain _ plain =>
      have found := Store.composite?_of_isPlain plain
      rw [Store.sourceConstructors_of_isPlain plain] at simple
      have simply := simple procedure (List.mem_singleton.mpr rfl) budget now leads receiver answer
        later ran
      have after : start.store.lineAfter line (.procedure procedure) = line := by
        rw [Store.lineAfter, found]
      rw [simply, Option.getD_none]
      refine ⟨leadsLater, after.symm ▸ kept, after.symm ▸ known, fun _ => rfl, ?_⟩
      intro _ _ keeps
      rw [Store.sourceConstructors_of_isPlain plain] at keeps
      have names := keeps procedure (List.mem_singleton.mpr rfl) budget now leads receiver
        knownReceiver
      rw [ran] at names
      exact names
  | @type _ type houses =>
      rcases leads.1.extends.composite? houses.found with ⟨definer, found⟩
      rcases Composite.exists_of_call_type found ran with ⟨inner, reached, rfl, constructed⟩
      rw [Store.sourceConstructors_of_composite? houses.found] at simple
      have prototype := (leads.1.extends.object _ houses.hasObject_prototype).1
      rcases Composite.construct_of_simple leads rootedNow prototype knownReceiver simple
        constructed with ⟨given, fresh⟩
      -- An instance has the table of the type among what it delegates to.
      have behind : now.store.isPrototypeOf type.prototype receiver = true ↔
          type.prototype ∈ start.store.ancestry line := by
        rw [Store.isPrototypeOf_iff_of_parent rootedNow parent,
          leads.1.extends.ancestry_eq rooted rootedNow known]
      have onLine : start.store.OnLine line [.procedure procedure] →
          now.store.isPrototypeOf type.prototype receiver = true := fun within =>
        behind.mpr (within procedure type (List.mem_singleton.mpr rfl) houses.found)
      refine ⟨leadsLater, ?_, ?_, fun within => (given (onLine within)).1, ?_⟩
      · rw [Store.lineAfter, houses.found, Value.asObject, Option.getD_some]
        dsimp only
        split
        · next within =>
          rw [(given (behind.mpr within)).1]
          exact kept
        · next beyond =>
          exact fresh (Bool.eq_false_iff.mpr fun delegates => beyond (behind.mp delegates))
      · rw [Store.lineAfter, houses.found]
        dsimp only
        split
        · exact known
        · exact houses.hasObject_prototype
      · intro within missing keeps
        rw [Store.sourceConstructors_of_composite? houses.found] at keeps
        exact (given (onLine within)).2 missing keeps

theorem settles_of_runInitializers {sources : List Value} {object : ObjectId}
    (present : ∀ source ∈ sources, start.store.Present source)
    (simple : ∀ source ∈ sources, ∀ constructor ∈ start.store.sourceConstructors source,
      start.AnswersSimply constructor)
    (ran : (runInitializers (.ofBudget budget) sources receiver).run now = (.ok object, later)) :
    later.store.parent object = some (start.store.settledLine line sources) ∧
      start.store.hasObject (start.store.settledLine line sources) = true ∧
      (start.store.OnLine line sources →
        start.store.settledLine line sources = line ∧ object = receiver ∧
        (now.store.has receiver Definer.memberName = false →
          (∀ source ∈ sources, ∀ constructor ∈ start.store.sourceConstructors source,
            start.KeepsReceiver constructor) →
          now.store.KeepsNames receiver later.store)) := by
  induction sources generalizing now line receiver with
  | nil =>
      cases ran
      exact ⟨parent, known, fun _ => ⟨rfl, rfl, fun _ _ => .refl _ _⟩⟩
  | cons source sources induction =>
      rw [List.forall_mem_cons] at present simple
      have initialized : ∃ next between, Initialized start line source receiver now next between ∧
          (runInitializers (.ofBudget budget) sources next).run between = (.ok object, later) := by
        cases source with
        | procedure procedure =>
            rw [runInitializers_procedure] at ran
            rcases succeeded_of_bind ran with ⟨answer, between, called, rest⟩
            exact ⟨_, between, initialized_of_call rooted leads parent known present.1 simple.1
              called, rest⟩
        | _ =>
            exact ⟨receiver, now, ⟨leads, parent, known, fun _ => rfl, fun _ _ _ => .refl _ _⟩,
              ran⟩
      rcases initialized with ⟨next, between, initialized, rest⟩
      rcases induction initialized.leads initialized.parent initialized.known present.2 simple.2
        rest with ⟨settled, there, within⟩
      refine ⟨settled, there, fun onLine => ?_⟩
      have head : start.store.OnLine line [source] := fun type built member found =>
        onLine type built (List.mem_singleton.mp member ▸ List.mem_cons_self ..) found
      obtain rfl := initialized.same head
      rw [onLine.lineAfter_eq] at within
      rcases within onLine.tail with ⟨equal, same, names⟩
      refine ⟨?_, same, fun missing keeps => ?_⟩
      · rw [Store.settledLine, List.foldl_cons, onLine.lineAfter_eq]
        exact equal
      · rw [List.forall_mem_cons] at keeps
        have kept := initialized.names head missing keeps.1
        exact kept.trans (names (kept.definer missing) keeps.2)

end Initializers

/-! ### The whole creation -/

theorem create_succeeded {meaning : Meaning σ} {composer : Composer} {base : Value}
    {sources : List Value} {world later : World σ} {object : ObjectId}
    (ran : (composer.create meaning base sources).run world = (.ok object, later)) :
    ∃ target begun definer asked conflicts merged,
      (Sources.delegate base).run world = (.ok target, begun) ∧
      (Definer.ofValue meaning base).run begun = (.ok definer, asked) ∧
      (mixin meaning target sources definer).run asked = (.ok conflicts, merged) ∧
      (runInitializers meaning (base :: sources) target).run
        ((composer.report conflicts).run merged).2 = (.ok object, later) := by
  rcases succeeded_of_bind ran with ⟨_, _, validBase, ran⟩
  rw [Action.run_ofExcept] at validBase
  obtain rfl := (Prod.mk.inj validBase).2
  rcases succeeded_of_bind ran with ⟨_, _, validSources, ran⟩
  rw [Action.run_ofExcept] at validSources
  obtain rfl := (Prod.mk.inj validSources).2
  rcases succeeded_of_bind ran with ⟨target, begun, delegated, ran⟩
  rcases succeeded_of_bind ran with ⟨definer, asked, defined, ran⟩
  rcases succeeded_of_bind ran with ⟨conflicts, merged, mixed, ran⟩
  rcases succeeded_of_bind ran with ⟨_, reported, reports, ran⟩
  refine ⟨target, begun, definer, asked, conflicts, merged, delegated, defined, mixed, ?_⟩
  rw [reports]
  exact ran

end Composer

private theorem Sources.changes_of_delegate {base : Value} {world later : World σ}
    {target : ObjectId} (ran : (delegate base).run world = (.ok target, later)) :
    Store.ChangesWithin .nowhere world.store later.store := by
  cases base with
  | object object =>
      cases ran
      exact .of_createObject _ _
  | procedure procedure =>
      cases ran
      exact (Store.ChangesWithin.of_prototypeOf _ _).trans (.of_createObject _ _)
  | undefined | null | boolean | number | text | list => cases ran

private theorem Sources.index_lt_of_delegate {base : Value} {world later : World σ}
    {target object : ObjectId} (ran : (delegate base).run world = (.ok target, later))
    (known : world.store.hasObject object = true) : object.index < target.index := by
  have fresh := fresh_of_delegate ran
  rw [Store.hasObject_iff] at known
  rw [← Bool.not_eq_true, Store.hasObject_iff] at fresh
  omega

theorem Sources.parent_of_delegate {base : Value} {world later : World σ} {target table : ObjectId}
    (tables : world.store.HasTables) (present : world.store.Present base)
    (ran : (delegate base).run world = (.ok target, later))
    (fronts : later.store.Fronts base table) : later.store.parent target = some table := by
  cases base with
  | object object =>
      cases ran
      cases fronts
      cases present with
      | table known => exact (Store.AddsTable.of_delegating known).parent
  | procedure procedure =>
      have asked := present.fronts
      have adds := Store.AddsTable.of_delegating
        (asked.hasObject (tables.prototypeOf procedure))
      cases ran
      have same := fronts.unique (asked.extends adds.changes.extends_)
      rw [same]
      exact adds.parent
  | undefined | null | boolean | number | text | list => cases ran

namespace Composer

open Merge (turns Turn)

/-- Whether neither hooks nor definers take part in a creation, and no code that it runs takes
names away. -/
structure OrdinaryCreation (budget : Nat) (base : Value) (sources : List Value) (target : ObjectId)
    (begun : World σ) : Prop where
  raw : (Definer.ofValue (.ofBudget budget) base).run begun = (.ok .raw, begun)
  undefined : begun.store.has target Definer.memberName = false
  sparing : ∀ turn ∈ turns (.ofBudget budget) ⟨target, .raw, sources⟩ 0 sources [] begun,
    turn.Sparing (.ofBudget budget) ⟨target, .raw, sources⟩
  keeps : ∀ constructor ∈ begun.store.constructors (base :: sources),
    begun.KeepsReceiver constructor

theorem OrdinaryCreation.names {budget : Nat} {base : Value} {sources : List Value}
    {target : ObjectId} {world begun merged : World σ} {conflicts : List Conflict}
    (ordinary : OrdinaryCreation budget base sources target begun) (rooted : world.store.Rooted)
    (tables : world.store.HasTables)
    (delegated : (Sources.delegate base).run world = (.ok target, begun))
    (mixed : (mixin (.ofBudget budget) target sources .raw).run begun = (.ok conflicts, merged)) :
    begun.store.KeepsNames target merged.store ∧
      ∀ source ∈ sources, ∀ shown, world.store.Fronts source shown →
        ∀ name ∈ world.store.enumerableNames shown, merged.store.has target name = true := by
  have beginning := Sources.changes_of_delegate delegated
  rcases Merge.names_of_turns (Meaning.evolving_ofBudget budget) rfl (beginning.rooted rooted)
    (Sources.hasObject_of_delegate delegated) ordinary.sparing mixed with ⟨kept, resolves⟩
  refine ⟨kept, fun source member shown shows name listed => ?_⟩
  have known := shows.hasObject tables
  refine resolves source member shown (shows.extends beginning.extends_)
    (Sources.index_lt_of_delegate delegated known) name ?_
  rcases Store.mem_enumerableNames_iff.mp listed with ⟨descriptor, resolved, enumerable⟩
  refine Store.mem_enumerableNames_iff.mpr ⟨descriptor, ?_, enumerable⟩
  rw [beginning.descriptor?_eq rooted known fun _ _ => id]
  exact resolved

/-- What a creation answers with, if no constructor involved answers with an object. It delegates
to the table of the base until a type is called whose table is not on its line, and then to the
table of that type. If the tables of all types are on the line of the base, it is the object that
the sources were merged into; and unless hooks, definers or code that takes names away take part,
it resolves every enumerable name of every source. -/
theorem created_object_settles {composer : Composer} {world begun later : World σ} {budget : Nat}
    {base : Value} {sources : List Value} {target table object : ObjectId}
    (rooted : world.store.Rooted) (tables : world.store.HasTables)
    (present : ∀ source ∈ base :: sources, world.store.Present source)
    (delegated : (Sources.delegate base).run world = (.ok target, begun))
    (fronts : begun.store.Fronts base table)
    (simple : ∀ constructor ∈ begun.store.constructors (base :: sources),
      begun.AnswersSimply constructor)
    (ran : (composer.create (.ofBudget budget) base sources).run world = (.ok object, later)) :
    later.store.parent object = some (begun.store.settledLine table (base :: sources)) ∧
    (later.store.isPrototypeOf table object = true ↔
      table ∈ begun.store.ancestry (begun.store.settledLine table (base :: sources))) ∧
    (begun.store.OnLine table sources →
      object = target ∧ later.store.parent object = some table ∧
      (OrdinaryCreation budget base sources target begun →
        ∀ source ∈ sources, ∀ shown, world.store.Fronts source shown →
          ∀ name ∈ world.store.enumerableNames shown, later.store.has object name = true)) := by
  have evolving : (Meaning.ofBudget budget : Meaning σ).Evolving := Meaning.evolving_ofBudget budget
  rcases create_succeeded ran with
    ⟨_, _, definer, asked, conflicts, merged, delegatedToo, defined, mixed, initialized⟩
  cases delegated.symm.trans delegatedToo
  have beginning := Sources.changes_of_delegate delegated
  have rootedBegun := beginning.rooted rooted
  have parent := Sources.parent_of_delegate tables (present base (List.mem_cons_self ..)) delegated
    fronts
  have knownTarget := Sources.hasObject_of_delegate delegated
  have made := Sources.evolving_delegate base world
  rw [delegated] at made
  have there := fronts.hasObject (tables.evolves made.1)
  -- From the new object to the one with the merged members.
  have reading := Definer.evolving_ofValue evolving base begun
  rw [defined] at reading
  have merging := evolving_mixin evolving target sources definer asked
  rw [mixed] at merging
  have leads : (Passage.evolution σ).leads begun ((composer.report conflicts).run merged).2 :=
    (Passage.evolution σ).trans ((Passage.evolution σ).trans reading merging)
      (composer.evolving_report conflicts merged)
  rcases settles_of_runInitializers rootedBegun leads
    ((leads.1.extends.object _ knownTarget).2.trans parent) there
    (fun source member => (present source member).extends beginning.extends_)
    (Store.forall_mem_constructors.mp simple) initialized with ⟨settled, knownLine, within⟩
  have initializing := Passage.Bears.follows_runInitializers evolving.within (base :: sources)
    target ((composer.report conflicts).run merged).2
  rw [initialized] at initializing
  have evolution := (Passage.evolution σ).trans leads initializing
  have rootedLater := rootedBegun.evolves evolution.1
  refine ⟨settled, ?_, fun onLine => ?_⟩
  · rw [Store.isPrototypeOf_iff_of_parent rootedLater settled,
      evolution.1.extends.ancestry_eq rootedBegun rootedLater knownLine]
  · rcases within (onLine.of_fronts fronts) with ⟨equal, rfl, names⟩
    rw [equal] at settled
    refine ⟨rfl, settled, fun ordinary source member shown shows name listed => ?_⟩
    cases ordinary.raw.symm.trans defined
    rcases ordinary.names rooted tables delegated mixed with ⟨kept, resolves⟩
    have mergedName := resolves source member shown shows name listed
    have reported : merged.store.KeepsNames object
        ((composer.report conflicts).run merged).2.store :=
      .of_changesWithin (changesWithin_report composer conflicts merged)
        (rootedBegun.evolves merging.1) (merging.1.extends.object _ knownTarget).1
    have undefined := (kept.trans reported).definer ordinary.undefined
    have last := names undefined (Store.forall_mem_constructors.mp ordinary.keeps)
    exact last.has name (reported.has name mergedName)

/-! A type with a constructor that answers with nothing, a table that is merged beside it, and an
initializer that takes a member away from what it is called on. -/

def createdRoots : World Unit where
  store := { Store.initial with
    objects := #[{ members := .ofEntries [("a", .ofValue .null)] },
      { members := .ofEntries [("b", .ofValue .null)] },
      { members := .ofEntries [("c", .ofValue .null)] }]
    procedures := Store.initial.procedures ++ #[{ body := .code ⟨0⟩ }, { body := .code ⟨1⟩ }] }
  codes := #[fun _ => .done (.ok .undefined), fun
    | .call (.object receiver) _ => .ask (.delete receiver "c") fun _ => .done (.ok .undefined)
    | _ => .done (.ok .undefined)]
  state := ()

def createdType : World Unit :=
  ((({} : Composer).compose (.ofBudget 1) [.procedure ⟨1⟩, .object ⟨1⟩]).run createdRoots).2

def createdExtension : World Unit :=
  (((createdType.store.composite? ⟨3⟩).get!.extend (.ofBudget 1) [.object ⟨0⟩]).run createdType).2

private theorem leads_createdExtension :
    (Passage.evolution Unit).leads createdRoots createdExtension :=
  (Passage.evolution Unit).trans
    (({} : Composer).evolving_compose (Meaning.evolving_ofBudget 1) _ createdRoots)
    ((createdType.store.composite? ⟨3⟩).get!.composer.evolving_compose
      (Meaning.evolving_ofBudget 1) _ createdType)

/-- An extension as the base, and the type that it extends among the sources. -/
theorem created_object_settles_of_extension :
    ∃ later,
      (({} : Composer).create (.ofBudget 3) (.procedure ⟨4⟩) [.procedure ⟨3⟩, .object ⟨2⟩]).run
          createdExtension = (.ok ⟨6⟩, later) ∧
      later.store.parent ⟨6⟩ = some ⟨5⟩ ∧
      later.store.isPrototypeOf ⟨5⟩ ⟨6⟩ = true ∧
      later.store.has ⟨6⟩ "b" = true ∧ later.store.has ⟨6⟩ "c" = true := by
  let type := (createdExtension.store.composite? ⟨3⟩).get!
  let extension_ := (createdExtension.store.composite? ⟨4⟩).get!
  let sources : List Value := [.procedure ⟨3⟩, .object ⟨2⟩]
  have housesType : createdExtension.store.Houses ⟨3⟩ type :=
    ⟨(Option.some_get! _ (by decide +kernel)).symm, by decide +kernel, by decide +kernel⟩
  have houses : createdExtension.store.Houses ⟨4⟩ extension_ :=
    ⟨(Option.some_get! _ (by decide +kernel)).symm, by decide +kernel, by decide +kernel⟩
  have tables : type.prototype = ⟨4⟩ ∧ extension_.prototype = ⟨5⟩ := by decide +kernel
  have known : createdExtension.store.hasObject ⟨2⟩ = true := by decide +kernel
  let begun : World Unit :=
    { createdExtension with store := createdExtension.store.delegating extension_.prototype }
  have delegated : (Sources.delegate (.procedure ⟨4⟩)).run createdExtension = (.ok ⟨6⟩, begun) := by
    rw [Sources.run_delegate_of_type houses.found]
    have next : createdExtension.store.nextObject = ⟨6⟩ := by decide +kernel
    rw [next]
  have made := Sources.evolving_delegate (.procedure ⟨4⟩) createdExtension
  rw [delegated] at made
  have leads := (Passage.evolution Unit).trans leads_createdExtension made
  have involved : begun.store.constructors (.procedure ⟨4⟩ :: sources) = [⟨1⟩] := by decide +kernel
  have body : (createdRoots.store.procedure ⟨1⟩).body = .code ⟨0⟩ := rfl
  have simple : begun.AnswersSimply ⟨1⟩ :=
    (World.answersSimply_of_code body (by decide) (by
      rintro _ _ _ _ _ ⟨⟩
      rfl)).later leads
  have keeps : begun.KeepsReceiver ⟨1⟩ :=
    (World.keepsReceiver_of_done body (by decide) fun _ => rfl).later leads
  have quiet : ∀ turn ∈ turns (.ofBudget 3) ⟨⟨6⟩, .raw, sources⟩ 0 sources [] begun,
      turn.decorator? ⟨6⟩ = none ∧ turn.name ≠ Definer.memberName ∧ turn.setter? ⟨6⟩ = none := by
    decide +kernel
  have ordinary : OrdinaryCreation 3 (.procedure ⟨4⟩) sources ⟨6⟩ begun := by
    refine ⟨?_, by decide +kernel, fun turn member => ?_, ?_⟩
    · exact Definer.run_ofValue_of_type _ begun (Option.some_get! _ (by decide +kernel)).symm
        (Option.isNone_iff_eq_none.mp (by decide +kernel))
    · rcases quiet turn member with ⟨undecorated, name, setterless⟩
      refine ⟨undecorated, name, fun setter found => ?_⟩
      rw [setterless] at found
      cases found
    · rw [involved]
      exact fun constructor member => List.mem_singleton.mp member ▸ keeps
  have ran := Action.run_eq_of_toOption
    (({} : Composer).create (.ofBudget 3) (.procedure ⟨4⟩) sources) createdExtension ⟨6⟩
    (by decide +kernel)
  have onLine : begun.store.OnLine ⟨5⟩ sources := by
    intro procedure built member found
    obtain rfl : procedure = ⟨3⟩ := by simpa [sources] using member
    obtain rfl : (begun.store.composite? ⟨3⟩).get! = built := by rw [found]; rfl
    decide +kernel
  have present : ∀ source ∈ .procedure ⟨4⟩ :: sources, createdExtension.store.Present source := by
    simp only [sources, List.forall_mem_cons]
    exact ⟨.type houses, .type housesType, .table known, List.forall_mem_nil _⟩
  have fronts := Store.Fronts.type houses
  rw [tables.2] at fronts
  have shows := Store.Fronts.type housesType
  rw [tables.1] at shows
  rcases created_object_settles (by decide +kernel) (by decide +kernel) present delegated
    (fronts.extends made.1.extends) (involved ▸ fun constructor member =>
      List.mem_singleton.mp member ▸ simple) ran with ⟨settled, delegates, within⟩
  rcases within onLine with ⟨_, parent, names⟩
  have resolves := names ordinary
  refine ⟨_, ran, parent, delegates.mpr (by decide +kernel), ?_, ?_⟩
  · exact resolves _ (List.mem_cons_self ..) _ shows "b" (by decide +kernel)
  · exact resolves _ (List.mem_cons_of_mem _ (List.mem_cons_self ..)) _ (.table known) "c"
      (by decide +kernel)

/-- A creation that answers with an instance of a type instead of the object that was merged into,
and one whose initializer takes a merged member away. -/
theorem created_object_misses :
    ∃ instance_ reduced,
      createdRoots.AnswersSimply ⟨1⟩ ∧ createdRoots.AnswersSimply ⟨2⟩ ∧
      (({} : Composer).compose (.ofBudget 1) [.procedure ⟨1⟩, .object ⟨1⟩]).run createdRoots =
        (.ok ⟨3⟩, createdType) ∧
      "c" ∈ createdType.store.enumerableNames ⟨2⟩ ∧
      (({} : Composer).create (.ofBudget 3) (.object ⟨0⟩) [.procedure ⟨3⟩, .object ⟨2⟩]).run
        createdType = (.ok ⟨6⟩, instance_) ∧
      instance_.store.isPrototypeOf ⟨0⟩ ⟨6⟩ = false ∧ instance_.store.has ⟨6⟩ "c" = false ∧
      (({} : Composer).create (.ofBudget 3) (.object ⟨0⟩) [.procedure ⟨2⟩, .object ⟨2⟩]).run
        createdType = (.ok ⟨5⟩, reduced) ∧
      reduced.store.isPrototypeOf ⟨0⟩ ⟨5⟩ = true ∧ reduced.store.has ⟨5⟩ "c" = false := by
  refine ⟨_, _, ?_, ?_, Action.run_eq_of_toOption _ _ _ (by decide +kernel), by decide +kernel,
    Action.run_eq_of_toOption _ _ _ (by decide +kernel), by decide +kernel, by decide +kernel,
    Action.run_eq_of_toOption _ _ _ (by decide +kernel), by decide +kernel, by decide +kernel⟩
  · have body : (createdRoots.store.procedure ⟨1⟩).body = .code ⟨0⟩ := rfl
    apply World.answersSimply_of_code body (by decide)
    rintro _ _ _ _ _ ⟨⟩
    rfl
  · have body : (createdRoots.store.procedure ⟨2⟩).body = .code ⟨1⟩ := rfl
    apply World.answersSimply_of_code body (by decide)
    rintro _ _ _ _ _ ⟨⟩
    rfl

end Composer

end TraitComposition
