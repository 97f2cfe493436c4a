import Mathlib.Data.List.Nodup
import TraitComposition.Proofs.Merge.Holdings
import TraitComposition.Proofs.Merge.Weighing

/-!
The turns of a merge. A merge visits its sources in order, and during a visit each enumerable
name of the source has its turn, up to the first failure. Turns are all that a merge does but
for asking procedures for their tables, and at a turn at most one hook runs, that of the method
which the source shows under the name.
-/
namespace TraitComposition

def Value.isSource : Value → Bool
  | .procedure _ | .object _ => true
  | _ => false

theorem Value.isSource_iff {value : Value} :
    value.isSource = true ↔
      (∃ procedure, value = .procedure procedure) ∨ ∃ object, value = .object object := by
  cases value <;> simp [isSource]

end TraitComposition

namespace TraitComposition.Merge

variable {σ : Type} (meaning : Meaning σ) (plan : Plan)

/-! ### Visits

A visit is what a merge keeps in mind of a source while it goes through the names of its table. -/

structure Visit where
  index : Nat
  table : ObjectId
  /-- The tables that a procedure brings along; a bare table has none but itself. -/
  chain : Option (List ObjectId)

namespace Visit

def mix (visit : Visit) (name : String) (held : List Conflict) : Action σ (List Conflict) :=
  match visit.chain with
  | some chain => mixMethod meaning plan visit.index visit.table chain name held
  | none => mixMember meaning plan visit.table name held

theorem follows_mix {passage : Passage σ} {meaning : Meaning σ} {plan : Plan} {name : String}
    (respects : Respects passage meaning plan name) (visit : Visit) (held : List Conflict) :
    Action.Follows passage (visit.mix meaning plan name held) := by
  rw [mix]
  split
  · exact respects.mixMethod _ _ _ held
  · exact respects.mixMember _ held

def start? (index : Nat) (source : Value) (store : Store) : Option (Visit × Store) :=
  match source with
  | .procedure procedure =>
      let (table, store) := store.prototypeOf procedure
      let (chain, store) := Store.prototypes [source] store
      some (⟨index, table, some chain⟩, store)
  | .object table => some (⟨index, table, none⟩, store)
  | _ => none

theorem exists_of_isSource (index : Nat) {source : Value} (valid : source.isSource = true)
    (store : Store) : ∃ visit after, start? index source store = some (visit, after) := by
  cases source with
  | procedure procedure => exact ⟨_, _, rfl⟩
  | object table => exact ⟨_, _, rfl⟩
  | _ => exact nomatch valid

theorem leads_of_start? {passage : Passage σ} (asks : Asks passage) (world : World σ)
    {index : Nat} {source : Value} {visit : Visit} {after : Store}
    (starts : start? index source world.store = some (visit, after)) :
    passage.leads world { world with store := after } := by
  unfold start? at starts
  split at starts
  · next procedure =>
    cases starts
    exact passage.trans (asks procedure world) (asks.prototypes [.procedure procedure] _)
  · cases starts
    exact passage.refl world
  · cases starts

theorem changes_of_start? {index : Nat} {source : Value} {before after : Store} {visit : Visit}
    (starts : start? index source before = some (visit, after)) :
    Store.ChangesWithin .nowhere before after :=
  leads_of_start? (asks_within .nowhere) (⟨before, #[], ()⟩ : World Unit) starts

theorem table_of_start? {index : Nat} {source : Value} {before after : Store} {visit : Visit}
    (starts : start? index source before = some (visit, after)) {table : ObjectId}
    (fronts : before.Fronts source table) : visit.table = table := by
  cases source with
  | procedure procedure =>
      cases starts
      exact congrArg Prod.fst fronts.prototypeOf_eq
  | object object =>
      cases starts
      cases fronts
      rfl
  | _ => cases starts

end Visit

theorem run_mixSource_eq_visit (index : Nat) (source : Value) (held : List Conflict)
    (world : World σ) :
    (mixSource meaning plan index source held).run world =
      match Visit.start? index source world.store with
      | some (visit, store) =>
          ((store.enumerableNames visit.table).foldlM
            (fun held name => visit.mix meaning plan name held) held).run
              { world with store := store }
      | none => (.error (.invalidInput index source.typeName), world) := by
  cases source with
  | procedure procedure =>
      rw [mixSource, Action.run_edit_bind, Action.run_edit_bind, Action.run_getStore_bind]
      rfl
  | object table =>
      rw [mixSource, Action.run_getStore_bind]
      rfl
  | _ => rfl

/-! ### Turns

A turn is a name of a source at the moment it is merged, with the conflicts that are held back by
then. -/

structure Turn (σ : Type) where
  visit : Visit
  name : String
  held : List Conflict
  before : World σ

namespace Turn

variable (turn : Turn σ)

def run : Except Fault (List Conflict) × World σ :=
  (turn.visit.mix meaning plan turn.name turn.held).run turn.before

def method? : Option ProcedureId :=
  (turn.before.store.descriptor? turn.visit.table turn.name).bind Descriptor.method?

/-- The decorator whose hook runs. One of a bare table always does; one that a procedure
brings has to be its own, over a member that its tables do not know. -/
def decorator? (target : ObjectId) : Option ProcedureId :=
  match turn.visit.chain with
  | some chain =>
      if installs turn.before.store turn.visit.table chain turn.name
          (turn.before.store.dataValue? target turn.name) then
        turn.method?
      else
        none
  | none => turn.method?.filter turn.before.store.isDecorator

def installs (target : ObjectId) (name : String) (decorator : ProcedureId) : Bool :=
  turn.name = name && turn.decorator? target = some decorator

private theorem installs_iff {target : ObjectId} {name : String} {decorator : ProcedureId} :
    turn.installs target name decorator = true ↔
      turn.name = name ∧ turn.decorator? target = some decorator := by
  simp [installs]

variable {turn} {target : ObjectId} {decorator : ProcedureId}

theorem method?_of_decorator? (runs : turn.decorator? target = some decorator) :
    turn.method? = some decorator := by
  unfold decorator? at runs
  split at runs
  · split at runs
    · exact runs
    · cases runs
  · exact (Option.filter_eq_some_iff.mp runs).1

end Turn

theorem put_install (install : Hook → ObjectId → String → Action σ Unit) (name : String)
    (descriptor : Descriptor) :
    put { meaning with install := install } plan name descriptor =
      put meaning plan name descriptor := rfl

/-- What user code a turn runs for decorators: the hook of one, and then the conflict under
the name is settled, or none at all. -/
def Turn.Installs (turn : Turn σ) : Option ProcedureId → Prop
  | some decorator => ∃ hook, (turn.before.store.procedure decorator).hook = some hook ∧
      turn.run meaning plan = (meaning.install hook plan.target turn.name >>= fun _ =>
        pure (settleConflict turn.name turn.held)).run turn.before
  | none => ∀ install, turn.run { meaning with install := install } plan = turn.run meaning plan

namespace Turn

variable {meaning plan} {index : Nat} {table : ObjectId} {name : String} {held : List Conflict}
  {world : World σ}

theorem installs_of_table :
    Installs meaning plan ⟨⟨index, table, none⟩, name, held, world⟩
      (decorator? ⟨⟨index, table, none⟩, name, held, world⟩ plan.target) := by
  cases found : world.store.lookup table name with
  | none =>
      simp only [decorator?, method?, Store.descriptor?, found]
      intro install
      simp only [run, Visit.mix, mixMember, Action.run_getStore_bind, found]
  | some resolved =>
      rcases resolved with ⟨owner, descriptor⟩
      cases method : descriptor.method? with
      | none =>
          simp only [decorator?, method?, Store.descriptor?, found, Option.map_some,
            Option.bind_some, method]
          intro install
          simp only [run, Visit.mix, mixMember, Action.run_getStore_bind, found, method,
            put_install]
      | some incoming =>
          simp only [decorator?, method?, Store.descriptor?, found, Option.map_some,
            Option.bind_some, method, Option.filter_some]
          split
          · next decorates =>
            rcases Option.isSome_iff_exists.mp decorates with ⟨hook, hooked⟩
            refine ⟨hook, hooked, ?_⟩
            simp only [run, Visit.mix, mixMember, Action.run_getStore_bind, found, method, hooked]
          · next plain =>
            have unhooked := Option.not_isSome_iff_eq_none.mp plain
            intro install
            simp only [run, Visit.mix, mixMember, Action.run_getStore_bind, found, method, unhooked,
              put_install]

theorem installs_of_chain {chain : List ObjectId} :
    Installs meaning plan ⟨⟨index, table, some chain⟩, name, held, world⟩
      (decorator? ⟨⟨index, table, some chain⟩, name, held, world⟩ plan.target) := by
  cases runs : Merge.installs world.store table chain name
      (world.store.dataValue? plan.target name) with
  | true =>
      rcases exists_of_installs runs with
        ⟨owner, descriptor, incoming, hook, found, method, hooked, _⟩
      simp only [decorator?, runs, if_true, method?, Store.descriptor?, found, Option.map_some,
        Option.bind_some, method]
      exact ⟨hook, hooked,
        run_mixMethod_of_installs meaning plan index chain held found method hooked runs⟩
  | false =>
      simp only [decorator?, runs, Bool.false_eq_true, if_false]
      intro install
      cases found : world.store.lookup table name with
      | none => simp only [run, Visit.mix, mixMethod, Action.run_getStore_bind, found]
      | some resolved =>
          rcases resolved with ⟨owner, descriptor⟩
          simp only [run, Visit.mix]
          cases method : descriptor.method? with
          | none =>
              rw [run_mixMethod_of_value _ plan index chain held found method,
                run_mixMethod_of_value _ plan index chain held found method, put_install]
          | some incoming =>
              rw [run_mixMethod_weighs _ plan index chain held found method runs,
                run_mixMethod_weighs _ plan index chain held found method runs]
              congr 2

variable (meaning plan)

theorem installs_decorator? (turn : Turn σ) :
    turn.Installs meaning plan (turn.decorator? plan.target) := by
  rcases turn with ⟨⟨index, table, _ | chain⟩, name, held, before⟩
  · exact installs_of_table
  · exact installs_of_chain

end Turn

/-! ### The turns of a merge -/

def turnsOfNames (visit : Visit) : List String → List Conflict → World σ → List (Turn σ)
  | [], _, _ => []
  | name :: names, held, world =>
      let turn : Turn σ := ⟨visit, name, held, world⟩
      turn :: match turn.run meaning plan with
        | (.ok left, later) => turnsOfNames visit names left later
        | (.error _, _) => []

def turnsOfSource (index : Nat) (source : Value) (held : List Conflict) (world : World σ) :
    List (Turn σ) :=
  match Visit.start? index source world.store with
  | some (visit, store) =>
      turnsOfNames meaning plan visit (store.enumerableNames visit.table) held
        { world with store := store }
  | none => []

def turns : (index : Nat) → List Value → List Conflict → World σ → List (Turn σ)
  | _, [], _, _ => []
  | index, source :: sources, held, world =>
      turnsOfSource meaning plan index source held world ++
        match (mixSource meaning plan index source held).run world with
        | (.ok left, later) => turns (index + 1) sources left later
        | (.error _, _) => []

theorem names_turnsOfNames (visit : Visit) :
    ∀ (names : List String) (held : List Conflict) (world : World σ),
      (turnsOfNames meaning plan visit names held world).map Turn.name <+: names ∧
      ∀ left later, (names.foldlM (fun held name => visit.mix meaning plan name held) held).run
          world = (.ok left, later) →
        (turnsOfNames meaning plan visit names held world).map Turn.name = names
  | [], _, _ => ⟨List.prefix_rfl, fun _ _ _ => rfl⟩
  | name :: names, held, world => by
      rw [turnsOfNames, List.map_cons, List.prefix_cons_inj, List.foldlM_cons]
      rcases ran : Turn.run meaning plan ⟨visit, name, held, world⟩ with ⟨fault | left, later⟩
      · refine ⟨List.nil_prefix, fun last end_ succeeded => ?_⟩
        rw [Action.run_bind_of_error _ ran] at succeeded
        cases succeeded
      · rcases names_turnsOfNames visit names left later with ⟨early, all⟩
        refine ⟨early, fun last end_ succeeded => ?_⟩
        rw [Action.run_bind_of_ok _ ran] at succeeded
        rw [all last end_ succeeded]

/-- What the turns of a visit keep holds at each of them, and when the visit is over. -/
theorem keeps_turnsOfNames (property : World σ → Prop) (visit : Visit) :
    ∀ (names : List String) (held : List Conflict) (world : World σ), property world →
      (∀ turn ∈ turnsOfNames meaning plan visit names held world,
        property turn.before → property (turn.run meaning plan).2) →
      (∀ turn ∈ turnsOfNames meaning plan visit names held world,
        turn.visit = visit ∧ property turn.before) ∧
      property ((names.foldlM (fun held name => visit.mix meaning plan name held) held).run world).2
  | [], _, _, holds, _ => ⟨nofun, holds⟩
  | name :: names, held, world, holds, each => by
      have first := each ⟨visit, name, held, world⟩ (List.mem_cons_self ..) holds
      rw [turnsOfNames] at each ⊢
      rw [List.foldlM_cons]
      rcases ran : Turn.run meaning plan ⟨visit, name, held, world⟩ with ⟨fault | left, later⟩
      · rw [ran] at first
        rw [Action.run_bind_of_error _ ran]
        refine ⟨fun turn member => ?_, first⟩
        rw [List.mem_singleton.mp member]
        exact ⟨rfl, holds⟩
      · simp only [ran] at first each ⊢
        rw [List.forall_mem_cons] at each ⊢
        rcases keeps_turnsOfNames property visit names left later first each.2 with ⟨rest, last⟩
        rw [Action.run_bind_of_ok _ ran]
        exact ⟨⟨⟨rfl, holds⟩, rest⟩, last⟩

/-! Another meaning that takes the same turns merges the same. -/

section Congruence

variable {meaning plan} {other : Meaning σ}

private theorem run_turnsOfNames_congr (visit : Visit) {names : List String} {held : List Conflict}
    {world : World σ} (same : ∀ turn ∈ turnsOfNames meaning plan visit names held world,
      turn.run other plan = turn.run meaning plan) :
    (names.foldlM (fun held name => visit.mix other plan name held) held).run world =
      (names.foldlM (fun held name => visit.mix meaning plan name held) held).run world := by
  induction names generalizing held world with
  | nil => rw [List.foldlM_nil, List.foldlM_nil]
  | cons name names induction =>
      rw [turnsOfNames, List.forall_mem_cons] at same
      rw [List.foldlM_cons, List.foldlM_cons]
      rcases ran : Turn.run meaning plan ⟨visit, name, held, world⟩ with ⟨fault | left, later⟩
      · rw [Action.run_bind_of_error _ ran, Action.run_bind_of_error _ (same.1.trans ran)]
      · rw [Action.run_bind_of_ok _ ran, Action.run_bind_of_ok _ (same.1.trans ran)]
        simp only [ran] at same
        exact induction same.2

theorem run_turns_congr :
    ∀ {index : Nat} {sources : List Value} {held : List Conflict} {world : World σ},
      (∀ turn ∈ turns meaning plan index sources held world,
        turn.run other plan = turn.run meaning plan) →
      (mixSources other plan index sources held).run world =
        (mixSources meaning plan index sources held).run world
  | _, [], _, _, _ => rfl
  | index, source :: sources, held, world, same => by
      rw [turns, List.forall_mem_append] at same
      have first : (mixSource other plan index source held).run world =
          (mixSource meaning plan index source held).run world := by
        rw [run_mixSource_eq_visit, run_mixSource_eq_visit]
        have visited := same.1
        unfold turnsOfSource at visited
        cases starts : Visit.start? index source world.store with
        | none => rfl
        | some started =>
            simp only [starts] at visited
            exact run_turnsOfNames_congr started.1 visited
      rw [mixSources, mixSources]
      rcases ran : (mixSource meaning plan index source held).run world with
        ⟨fault | left, later⟩
      · rw [Action.run_bind_of_error _ ran, Action.run_bind_of_error _ (first.trans ran)]
      · rw [Action.run_bind_of_ok _ ran, Action.run_bind_of_ok _ (first.trans ran)]
        simp only [ran] at same
        exact run_turns_congr same.2

end Congruence

end TraitComposition.Merge

/-! ### What sources show

A source shows a method if its table has it as an enumerable member, and shows it bare if it is a
table itself. -/

namespace TraitComposition.Store

theorem hasProcedure_of_isDecorator {store : Store} {procedure : ProcedureId}
    (decorates : store.isDecorator procedure = true) : store.hasProcedure procedure = true := by
  cases known : store.hasProcedure procedure with
  | true => rfl
  | false =>
      rw [isDecorator, procedure_of_not_hasProcedure known] at decorates
      cases decorates

private theorem Extends.isDecorator {before after : Store} (extends_ : before.Extends after)
    {procedure : ProcedureId} (decorates : before.isDecorator procedure = true) :
    after.isDecorator procedure = true := by
  rw [Store.isDecorator, extends_.hook (hasProcedure_of_isDecorator decorates)]
  exact decorates

def shows (store : Store) (name : String) (method : ProcedureId) : Value → Bool
  | .procedure procedure =>
      (store.shown? (store.prototypeOf procedure).1 name).any (·.same (.procedure method))
  | .object table => (store.shown? table name).any (·.same (.procedure method))
  | _ => false

theorem any_same_procedure_iff {shown : Option Value} {method : ProcedureId} :
    shown.any (·.same (.procedure method)) = true ↔ shown = some (.procedure method) := by
  rw [Option.any_eq_true]
  constructor
  · rintro ⟨value, shown, equal⟩
    rw [shown, Value.same_procedure_iff.mp equal]
  · intro shown
    exact ⟨_, shown, Value.same_procedure_iff.mpr rfl⟩

theorem shows_iff {store : Store} {name : String} {method : ProcedureId} {source : Value}
    {table : ObjectId} (fronts : store.Fronts source table) :
    store.shows name method source = true ↔
      store.shown? table name = some (.procedure method) := by
  have same : store.shows name method source =
      (store.shown? table name).any (·.same (.procedure method)) := by
    cases source with
    | procedure procedure => rw [shows, fronts.prototypeOf_eq]
    | object object =>
        cases fronts
        rfl
    | _ => cases fronts
  rw [same, any_same_procedure_iff]

def showsBare (store : Store) (name : String) (method : ProcedureId) (source : Value) : Bool :=
  source.asObject.isSome && store.shows name method source

theorem shown?_eq_procedure_iff {store : Store} {table : ObjectId} {name : String}
    {method : ProcedureId} :
    store.shown? table name = some (.procedure method) ↔
      name ∈ store.enumerableNames table ∧
        (store.descriptor? table name).bind Descriptor.method? = some method := by
  rw [mem_enumerableNames_iff, shown?]
  constructor
  · intro shown
    rcases Option.bind_eq_some_iff.mp shown with ⟨descriptor, found, holds⟩
    rcases Option.filter_eq_some_iff.mp found with ⟨resolved, enumerable⟩
    refine ⟨⟨descriptor, resolved, enumerable⟩, ?_⟩
    rw [resolved, Option.bind_some, Descriptor.method?, holds]
    rfl
  · rintro ⟨⟨descriptor, resolved, enumerable⟩, holds⟩
    rw [resolved, Option.bind_some] at holds
    rw [resolved, Option.filter_some, if_pos enumerable, Option.bind_some]
    exact Descriptor.value?_of_method? holds

end TraitComposition.Store

/-! ### Contained merges

A turn is contained if it changes nothing that was there but the destination. -/

namespace TraitComposition.Merge

open Store (ChangesWithin)

variable {σ : Type} (meaning : Meaning σ) (plan : Plan)

def Turn.Contained (turn : Turn σ) : Prop :=
  ChangesWithin (.object plan.target) turn.before.store (turn.run meaning plan).2.store

variable {meaning plan}

section Source

variable {start : Store} (rooted : start.Rooted) {world : World σ}
  (changes : ChangesWithin (.object plan.target) start world.store) {index : Nat} {source : Value}
  {held : List Conflict}
  (contained : ∀ turn ∈ turnsOfSource meaning plan index source held world,
    turn.Contained meaning plan)

include changes contained

theorem changes_of_contained :
    (∀ turn ∈ turnsOfSource meaning plan index source held world,
      ChangesWithin (.object plan.target) start turn.before.store) ∧
    ChangesWithin (.object plan.target) start
      ((mixSource meaning plan index source held).run world).2.store := by
  rw [run_mixSource_eq_visit]
  unfold turnsOfSource at contained ⊢
  cases starts : Visit.start? index source world.store with
  | none => exact ⟨nofun, changes⟩
  | some started =>
      rcases started with ⟨visit, store⟩
      simp only [starts] at contained ⊢
      have asked : ChangesWithin (.object plan.target) start store :=
        changes.trans (Visit.changes_of_start? starts).of_nowhere
      rcases keeps_turnsOfNames meaning plan
        (fun now => ChangesWithin (.object plan.target) start now.store) visit
        (store.enumerableNames visit.table) held { world with store := store } asked
        (fun turn member before => before.trans (contained turn member)) with ⟨each, last⟩
      exact ⟨fun turn member => (each turn member).2, last⟩

end Source

def installations (target : ObjectId) (name : String) (decorator : ProcedureId)
    (taken : List (Turn σ)) : Nat :=
  taken.countP fun turn => turn.installs target name decorator

@[simp] theorem installations_append (target : ObjectId) (name : String) (decorator : ProcedureId)
    (first second : List (Turn σ)) :
    installations target name decorator (first ++ second) =
      installations target name decorator first + installations target name decorator second :=
  List.countP_append

theorem installations_turnsOfSource_le_one (index : Nat) (source : Value) (held : List Conflict)
    (world : World σ) (name : String) (decorator : ProcedureId) :
    installations plan.target name decorator (turnsOfSource meaning plan index source held world) ≤
      1 := by
  unfold turnsOfSource installations
  cases Visit.start? index source world.store with
  | none => exact Nat.zero_le 1
  | some started =>
      rcases started with ⟨visit, store⟩
      dsimp only
      let names := store.enumerableNames visit.table
      have early := (names_turnsOfNames meaning plan visit names held
        { world with store := store }).1
      have unique := (store.nodup_enumerableNames visit.table).sublist early.sublist
      calc
        _ ≤ (turnsOfNames meaning plan visit names held { world with store := store }).countP
            (fun turn => turn.name == name) := by
          apply List.countP_mono_left
          intro turn _ runs
          exact beq_iff_eq.mpr (turn.installs_iff.mp runs).1
        _ = ((turnsOfNames meaning plan visit names held { world with store := store }).map
            Turn.name).count name := by
          rw [List.count, List.countP_map]
          rfl
        _ ≤ 1 := List.nodup_iff_count_le_one.mp unique name

section Source

variable {start : Store} (rooted : start.Rooted) {world : World σ}
  (changes : ChangesWithin (.object plan.target) start world.store) {index : Nat} {source : Value}
  {held : List Conflict}
  (contained : ∀ turn ∈ turnsOfSource meaning plan index source held world,
    turn.Contained meaning plan)
  {table : ObjectId} (fronts : start.Fronts source table) (known : start.hasObject table = true)
  (apart : plan.target ∉ start.ancestry table) {name : String} {decorator : ProcedureId}

include rooted changes contained fronts known apart

theorem shows_of_installs {turn : Turn σ}
    (member : turn ∈ turnsOfSource meaning plan index source held world)
    (runs : turn.installs plan.target name decorator = true) :
    start.shows name decorator source = true := by
  have outside : ∀ level ∈ start.ancestry table, ¬Store.Region.object plan.target level name :=
    fun level inside equal => apart (equal ▸ inside)
  have before := (changes_of_contained changes contained).1 turn member
  unfold turnsOfSource at member
  cases starts : Visit.start? index source world.store with
  | none =>
      rw [starts] at member
      cases member
  | some started =>
      rcases started with ⟨visit, store⟩
      simp only [starts] at member contained
      have asked : ChangesWithin (.object plan.target) start store :=
        changes.trans (Visit.changes_of_start? starts).of_nowhere
      have visited := (keeps_turnsOfNames meaning plan (fun _ => True) visit _ held
        { world with store := store } trivial fun _ _ _ => trivial).1 turn member
      have listed := (names_turnsOfNames meaning plan visit _ held
        { world with store := store }).1.subset (List.mem_map_of_mem member)
      have same : visit.table = table :=
        Visit.table_of_start? starts (fronts.extends changes.extends_)
      rcases turn.installs_iff.mp runs with ⟨rfl, decorates⟩
      have holds := Turn.method?_of_decorator? decorates
      rw [Turn.method?, visited.1, same, before.descriptor?_eq rooted known outside] at holds
      rw [same, Store.mem_enumerableNames_iff, asked.descriptor?_eq rooted known outside,
        ← Store.mem_enumerableNames_iff] at listed
      exact (Store.shows_iff fronts).mpr (Store.shown?_eq_procedure_iff.mpr ⟨listed, holds⟩)

private theorem installations_turnsOfSource_le :
    installations plan.target name decorator (turnsOfSource meaning plan index source held world) ≤
      if start.shows name decorator source then 1 else 0 := by
  split
  · exact installations_turnsOfSource_le_one ..
  · next hidden =>
    apply Nat.le_of_eq
    rw [installations, List.countP_eq_zero]
    intro turn member runs
    exact hidden (shows_of_installs rooted changes contained fronts known apart member runs)

theorem installations_turnsOfSource_pos (decorates : start.isDecorator decorator = true)
    (bare : start.showsBare name decorator source = true) {left : List Conflict}
    {later : World σ}
    (ran : (mixSource meaning plan index source held).run world = (.ok left, later)) :
    0 < installations plan.target name decorator
      (turnsOfSource meaning plan index source held world) := by
  have outside : ∀ level ∈ start.ancestry table, ¬Store.Region.object plan.target level name :=
    fun level inside equal => apart (equal ▸ inside)
  have before := (changes_of_contained changes contained).1
  rw [Store.showsBare, Bool.and_eq_true, Store.shows_iff fronts,
    Store.shown?_eq_procedure_iff] at bare
  cases source with
  | object object =>
      cases fronts
      rcases bare with ⟨_, listed, holds⟩
      rw [run_mixSource_eq_visit] at ran
      have all := (names_turnsOfNames meaning plan ⟨index, table, none⟩
        (world.store.enumerableNames table) held world).2 left later ran
      rw [Store.mem_enumerableNames_iff, ← changes.descriptor?_eq rooted known outside,
        ← Store.mem_enumerableNames_iff, ← all] at listed
      rcases List.mem_map.mp listed with ⟨turn, member, named⟩
      have visited := (keeps_turnsOfNames meaning plan (fun _ => True)
        ⟨index, table, none⟩ _ held world trivial fun _ _ _ => trivial).1 turn member
      apply List.countP_pos_iff.mpr
      refine ⟨turn, member, turn.installs_iff.mpr ⟨named, ?_⟩⟩
      have method : turn.method? = some decorator := by
        rw [Turn.method?, visited.1, named,
          (before turn member).descriptor?_eq rooted known outside]
        exact holds
      rw [Turn.decorator?, visited.1]
      exact Option.filter_eq_some_iff.mpr
        ⟨method, (before turn member).extends_.isDecorator decorates⟩
  | _ => cases bare.1

end Source

/-! ### All sources -/

section Sources

variable {start : Store} (rooted : start.Rooted) (name : String) (decorator : ProcedureId)

include rooted

/-- If turns are contained, the hook of a decorator runs at most once for each time that a source
shows it, and, once the merge has succeeded, at least once for each time that a bare table
shows it. -/
theorem installations_turns :
    ∀ {index : Nat} {sources : List Value} {held : List Conflict} {world : World σ},
      ChangesWithin (.object plan.target) start world.store →
      (∀ turn ∈ turns meaning plan index sources held world, turn.Contained meaning plan) →
      (∀ source ∈ sources, ∃ table, start.Fronts source table ∧ start.hasObject table = true ∧
        plan.target ∉ start.ancestry table) →
      installations plan.target name decorator (turns meaning plan index sources held world) ≤
        sources.countP (start.shows name decorator) ∧
      (start.isDecorator decorator = true → ∀ left later,
        (mixSources meaning plan index sources held).run world = (.ok left, later) →
          sources.countP (start.showsBare name decorator) ≤
            installations plan.target name decorator
              (turns meaning plan index sources held world))
  | _, [], _, _, _, _, _ => ⟨Nat.le_refl _, fun _ _ _ _ => Nat.le_refl _⟩
  | index, source :: sources, held, world, changes, contained, there => by
      rw [List.forall_mem_cons] at there
      rcases there with ⟨⟨table, fronts, known, apart⟩, there⟩
      rw [turns] at contained ⊢
      rw [List.forall_mem_append] at contained
      have most : installations plan.target name decorator
          (turnsOfSource meaning plan index source held world) ≤
            if start.shows name decorator source then 1 else 0 :=
        installations_turnsOfSource_le rooted changes contained.1 fronts known apart
      have reached := (changes_of_contained changes contained.1).2
      rw [installations_append, List.countP_cons, List.countP_cons]
      rcases ran : (mixSource meaning plan index source held).run world with
        ⟨fault | left, between⟩
      · have none_ : installations plan.target name decorator ([] : List (Turn σ)) = 0 := rfl
        refine ⟨by dsimp only; omega, fun _ last later ends => ?_⟩
        rw [mixSources, Action.run_bind_of_error _ ran] at ends
        cases ends
      · simp only [ran] at contained reached ⊢
        rcases installations_turns reached contained.2 there with ⟨rest, restLeast⟩
        refine ⟨by omega, fun decorates last later ends => ?_⟩
        rw [mixSources, Action.run_bind_of_ok _ ran] at ends
        have least := restLeast decorates last later ends
        split
        · next bare =>
          have first := installations_turnsOfSource_pos rooted changes contained.1 fronts known
            apart decorates bare ran
          omega
        · omega

end Sources

end TraitComposition.Merge
