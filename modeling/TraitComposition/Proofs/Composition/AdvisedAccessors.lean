import TraitComposition.Proofs.Composition.Ingredients
import TraitComposition.Proofs.Composition.PatchingTables
import TraitComposition.Proofs.Composition.Regrouping

/-!
Types with advised accessors. A type that is extended with a bare table in which a decorator gives
advice on an accessor comes to own one, with the advice stacked on what it inherits; so along any
chain of extensions getters and setters carry the advice of all steps.
-/
namespace TraitComposition

open TraitComposition.Action (Follows succeeded_of_bind)

variable {σ : Type}

/-! ### Extending -/

theorem Store.Extends.size_le {before after : Store} (extends_ : before.Extends after) :
    before.objects.size ≤ after.objects.size := by
  by_contra smaller
  have there := (extends_.object after.nextObject (hasObject_iff.mpr (Nat.lt_of_not_le smaller))).1
  rw [hasObject_nextObject_eq_false] at there
  cases there

namespace Composite

structure Stands (type : Composite) (store : Store) : Prop where
  found : store.composite? type.procedure = some type
  known : store.hasObject type.prototype = true

def extendUpTo (meaning : Meaning σ) (type : Composite) (table : ObjectId) (name : String) :
    Action σ (List Conflict) := do
  let target ← Sources.delegate (.procedure type.procedure)
  let definer ← Definer.ofValue meaning (.procedure type.procedure)
  Merge.mixUpTo meaning ⟨target, definer, [.object table]⟩ table name

section Extending

variable (meaning : Meaning σ) {world later : World σ} {type : Composite} (table : ObjectId)
  {name : String} {next : ProcedureId} (stands : type.Stands world.store)

include stands

theorem exists_definer : ∃ definer,
    (type.definer = none → definer = .raw) ∧
    (∀ name, (type.extendUpTo meaning table name).run world =
      (Merge.mixUpTo meaning ⟨world.store.nextObject, definer, [.object table]⟩ table name).run
        { world with store := world.store.delegating type.prototype }) ∧
    (type.composer.composeTable meaning (.procedure type.procedure) [.object table]).run world =
      (mixin meaning world.store.nextObject [.object table] definer >>= fun left =>
        type.composer.report left >>= fun _ => pure world.store.nextObject).run
          { world with store := world.store.delegating type.prototype } := by
  let begun : World σ := { world with store := world.store.delegating type.prototype }
  have found : begun.store.composite? type.procedure = some type :=
    (Store.AddsTable.of_delegating stands.known).changes.types _ _ stands.found
  have defines : ∃ definer, (type.definer = none → definer = .raw) ∧
      (Definer.ofValue meaning (.procedure type.procedure)).run begun = (.ok definer, begun) := by
    cases own : type.definer with
    | none => exact ⟨.raw, fun _ => rfl, Definer.run_ofValue_of_type meaning begun found own⟩
    | some definer =>
        refine ⟨.custom definer, nofun, ?_⟩
        rw [Definer.ofValue, Action.run_getStore_bind, Store.definer?, found, Option.bind_some, own]
        rfl
  rcases defines with ⟨definer, raw, defines⟩
  refine ⟨definer, raw, fun name => ?_, ?_⟩
  · rw [extendUpTo, Action.run_bind_of_ok _ (Sources.run_delegate_of_type stands.found)]
    exact Action.run_bind_of_ok _ defines
  · rw [Composer.composeTable_procedure,
      Action.run_bind_of_ok _ (Sources.run_delegate_of_type stands.found)]
    exact Action.run_bind_of_ok _ defines

variable {meaning table}

theorem extend_succeeded
    (ran : (type.extend meaning [.object table]).run world = (.ok next, later)) :
    ∃ definer left mixed built,
      (∀ name, (type.extendUpTo meaning table name).run world =
        (Merge.mixUpTo meaning ⟨world.store.nextObject, definer, [.object table]⟩ table name).run
          { world with store := world.store.delegating type.prototype }) ∧
      (mixin meaning world.store.nextObject [.object table] definer).run
          { world with store := world.store.delegating type.prototype } = (.ok left, mixed) ∧
      mixed.store.Keeps (fun _ => True) later.store ∧
      later.store.composite? next = some built ∧ next = built.procedure ∧
      built.prototype = world.store.nextObject ∧ built.definer = none := by
  let sources : List Value := [.procedure type.procedure, .object table]
  rcases exists_definer meaning table stands with ⟨definer, _, upTo, composes⟩
  rcases Composer.compose_succeeded ran with ⟨prototype, merged, ranTable, rfl, rfl⟩
  rw [List.headD_cons, List.tail_cons, composes] at ranTable
  rcases succeeded_of_bind ranTable with ⟨left, mixed, ranMixin, ranRest⟩
  rcases succeeded_of_bind ranRest with ⟨_, reported, ranReport, finished⟩
  cases finished
  have keeps : (Passage.keeping σ fun _ => True).leads mixed _ :=
    type.composer.keeping_report left mixed
  rw [ranReport] at keeps
  exact ⟨definer, left, mixed, _, upTo, ranMixin,
    keeps.trans (Store.keeps_enterType type.composer sources world.store.nextObject merged),
    Composer.composite?_enterType type.composer sources world.store.nextObject merged.store,
    rfl, rfl, rfl⟩

omit stands in
theorem exists_run_extend_of_mixin {definer : Definer} {mixed : World σ}
    (composes : (type.composer.composeTable meaning (.procedure type.procedure)
        [.object table]).run world =
      (mixin meaning world.store.nextObject [.object table] definer >>= fun left =>
        type.composer.report left >>= fun _ => pure world.store.nextObject).run
          { world with store := world.store.delegating type.prototype })
    (ran : (mixin meaning world.store.nextObject [.object table] definer).run
        { world with store := world.store.delegating type.prototype } = (.ok [], mixed)) :
    ∃ next later, (type.extend meaning [.object table]).run world = (.ok next, later) := by
  have composed : (type.extend meaning [.object table]).run world = _ :=
    Composer.run_compose meaning type.composer rfl world
  rw [List.headD_cons, List.tail_cons, composes, Action.run_bind_of_ok _ ran,
    Composer.run_report_bind, Composer.answer_nil] at composed
  exact ⟨_, _, composed⟩

end Extending

theorem exists_run_extendUpTo {meaning : Meaning σ} {world later : World σ} {type : Composite}
    {table : ObjectId} {next : ProcedureId}
    (ran : (type.extend meaning [.object table]).run world = (.ok next, later)) (name : String) :
    ∃ passed front, (type.extendUpTo meaning table name).run world = (.ok passed, front) := by
  rcases Composer.compose_succeeded ran with ⟨_, _, ranTable, _⟩
  rw [List.headD_cons, List.tail_cons, Composer.composeTable_procedure] at ranTable
  rcases succeeded_of_bind ranTable with ⟨target, begun, delegated, ranTable⟩
  rcases succeeded_of_bind ranTable with ⟨definer, ready, defined, ranTable⟩
  rcases succeeded_of_bind ranTable with ⟨_, _, ranMixin, _⟩
  rw [extendUpTo, Action.run_bind_of_ok _ delegated, Action.run_bind_of_ok _ defined]
  exact Merge.exists_run_mixUpTo ranMixin

private theorem upheld_extendUpTo {first second : Meaning σ} (upheld : first.UpheldBy second)
    (type : Composite) (table : ObjectId) (name : String) :
    Action.UpheldBy (type.extendUpTo first table name) (type.extendUpTo second table name) := by
  apply Action.UpheldBy.bind (.refl _)
  intro target
  apply Action.UpheldBy.bind (Definer.upheld_ofValue upheld _)
  intro definer
  apply Action.UpheldBy.bind (.refl _)
  intro store
  exact .foldlM (fun held other => Merge.upheld_mixMember upheld _ table other held) _ _

/-! ### Extending with advice -/

section Advising

variable {kept : ObjectId → Prop} [DecidablePred kept] {budget : Nat} {world later : World σ}
  {type : Composite} {table : ObjectId} {name : String} {patch : Patch} {former : Descriptor}
  {next : ProcedureId}

variable (rooted : world.store.Rooted) (stands : type.Stands world.store)
  (patches : world.store.Patches table name patch) (advising : patch.Advising world.store)
  (founds : world.store.FoundsAccessor former)
  (resolved : world.store.descriptor? type.prototype name = some former)
  (insideType : ∀ level ∈ world.store.ancestry type.prototype, kept level)
  (insideTable : ∀ level ∈ world.store.ancestry table, kept level)
  (insideNew : kept world.store.nextObject)

include rooted stands patches advising founds resolved insideType insideTable insideNew

omit [DecidablePred kept] in
theorem awaitsAdvice_delegating : (world.store.delegating type.prototype).AwaitsAdvice kept table
    world.store.nextObject name patch former := by
  have adds := Store.AddsTable.of_delegating stands.known
  have extends_ := adds.changes.extends_
  have unowned := world.store.ownDescriptor?_delegating_nextObject type.prototype
  have line := adds.changes.ancestry_eq rooted patches.known
  exact {
    sheltered := {
      rooted := adds.changes.rooted rooted
      there := (extends_.object table patches.known).1
      known := adds.hasObject_nextObject
      inside := insideNew
      levels := fun level member => by
        rw [line] at member
        have there := Store.hasObject_of_mem_ancestry rooted patches.known member
        exact ⟨insideTable level member, (Store.nextObject_ne there).symm⟩ }
    above := by
      rw [adds.ancestors_nextObject rooted stands.known]
      exact insideType
    patches := patches.later (.of_createObject world.store (some type.prototype)) rooted insideTable
    advising := advising.later extends_
    founds := founds.later extends_
    resolved := (adds.descriptor?_nextObject rooted stands.known (unowned name)).trans resolved
    unowned := unowned name }

variable (drafts : ∀ passed front,
  (type.extendUpTo (.sheltering kept (budget + 2)) table name).run world = (.ok passed, front) →
    ∀ draft ∈ front.store.upcoming 2, kept draft)

include drafts

theorem extend_patching
    (ran : (type.extend (.sheltering kept (budget + 2)) [.object table]).run world =
      (.ok next, later)) :
    ∃ (built : Composite) (advised : Descriptor), next = built.procedure ∧
      world.store.Keeps kept later.store ∧ built.Stands later.store ∧ built.definer = none ∧
      later.store.parent built.prototype = some type.prototype ∧
      later.store.ownDescriptor? built.prototype name = some advised ∧
      world.store.Advised later.store former patch advised := by
  have adds := Store.AddsTable.of_delegating stands.known
  let begun : World σ := { world with store := world.store.delegating type.prototype }
  have awaits : begun.store.AwaitsAdvice kept table world.store.nextObject name patch former :=
    awaitsAdvice_delegating rooted stands patches advising founds resolved insideType insideTable
      insideNew
  rcases extend_succeeded stands ran with
    ⟨definer, left, mixed, built, upTo, ranMixin, entering, found, rfl, prototype, raw⟩
  rcases Merge.mixin_patching awaits
    (fun passed front ranUpTo => drafts passed front ((upTo name).trans ranUpTo)) ranMixin with
    ⟨advised, keeps, own, advises⟩
  have known := Store.hasObject_of_descriptor? (Store.descriptor?_of_own own)
  have entered := entering.extends_
  refine ⟨built, advised, rfl, ?_, ⟨found, ?_⟩, raw, ?_, ?_, ?_⟩
  · have created : world.store.Keeps (fun object => kept object ∧ object ≠ world.store.nextObject)
        begun.store := .of_createObject world.store (some type.prototype)
    exact ((created.trans keeps).trans (entering.mono fun _ _ _ => trivial)).mono
      fun object there sheltered => ⟨sheltered, (Store.nextObject_ne there).symm⟩
  · rw [prototype]
    exact (entered.object _ known).1
  · rw [prototype]
    exact (entered.object _ known).2.trans
      ((keeps.extends_.object _ adds.hasObject_nextObject).2.trans adds.parent)
  · rw [prototype, Store.ownDescriptor?, entering.members _ known trivial]
    exact own
  · exact (advises.since adds.changes.extends_ founds advising).later entered

theorem exists_run_extend_patching (raw : type.definer = none)
    (only : world.store.DecoratesOnly table name) :
    ∃ next later, (type.extend (.sheltering kept (budget + 2)) [.object table]).run world =
      (.ok next, later) := by
  let begun : World σ := { world with store := world.store.delegating type.prototype }
  have delegating : world.store.Keeps (fun _ => True) begun.store :=
    .of_createObject world.store (some type.prototype)
  have awaits : begun.store.AwaitsAdvice kept table world.store.nextObject name patch former :=
    awaitsAdvice_delegating rooted stands patches advising founds resolved insideType insideTable
      insideNew
  rcases exists_definer (.sheltering kept (budget + 2)) table stands with
    ⟨definer, plain, upTo, composes⟩
  rcases Merge.exists_run_mixin_patching awaits
    (fun passed front ranUpTo => drafts passed front ((upTo name).trans ranUpTo)) (plain raw)
    (only.later delegating rooted (fun _ _ => trivial) patches.known)
    (world.store.ownDescriptor?_delegating_nextObject type.prototype) with ⟨mixed, ran⟩
  exact exists_run_extend_of_mixin composes ran

end Advising

end Composite

/-! ### Chains of extensions

A type is extended with one bare table after the other, each of which gives advice on the same
accessor. Involved in this are the tables, what they delegate to, and the objects that are made on
the way. -/

namespace Store

def involved (store : Store) (tables : List ObjectId) (count : Nat) : List ObjectId :=
  tables.flatMap store.ancestry ++ store.upcoming count

private theorem mem_involved {store : Store} {tables : List ObjectId} {count : Nat}
    {table level : ObjectId} (member : table ∈ tables) (inside : level ∈ store.ancestry table) :
    level ∈ store.involved tables count :=
  List.mem_append_left _ (List.mem_flatMap.mpr ⟨table, member, inside⟩)

theorem Extends.stackAll_eq {before after : Store} (extends_ : before.Extends after)
    {start : Weave} {weaves : List Weave}
    (older : ∀ weave ∈ start :: weaves, ∀ root, weave.root = some root →
      before.hasProcedure root = true) :
    after.stackAll start weaves = before.stackAll start weaves := by
  induction weaves generalizing start with
  | nil => rfl
  | cons weave weaves induction =>
      rw [List.forall_mem_cons, List.forall_mem_cons] at older
      rcases older with ⟨first, second, rest⟩
      rw [stackAll_cons, stackAll_cons, Weave.stackWeaves_eq first extends_]
      apply induction
      refine List.forall_mem_cons.mpr ⟨fun root stacked => ?_, rest⟩
      rcases Weave.stackRoot_cases before.isRequired start.root weave.root with same | same
      · exact first root (same.symm.trans stacked)
      · exact second root (same.symm.trans stacked)

structure AdvisedInTurn (before after : Store) (former : Descriptor) (patches : List Patch)
    (advised : Descriptor) : Prop where
  accessor : advised.isAccessor = true
  getter : after.carried advised.getter? =
    before.stackAll (before.carried former.getter?)
      (patches.map fun patch => before.carried patch.getter)
  setter : after.carried advised.setter? =
    before.stackAll (before.carried former.setter?)
      (patches.map fun patch => before.carried patch.setter)
  enumerable : advised.enumerable = former.enumerable
  configurable : advised.configurable = former.configurable

section InTurn

variable {before middle after : Store} (extends_ : before.Extends middle) {patch : Patch}
  {patches : List Patch}

include extends_

theorem Stacked.stackAll {former given advised last : Option ProcedureId}
    (stacked : before.Stacked middle former given advised) (founded : before.Founded former)
    (foundedGiven : before.Founded given) {side : Patch → Option ProcedureId}
    (foundedRest : ∀ other ∈ patches, before.Founded (side other))
    (rest : after.carried last = middle.stackAll (middle.carried advised)
      (patches.map fun other => middle.carried (side other))) :
    after.carried last = before.stackAll (before.carried former)
      (before.carried given :: patches.map fun other => before.carried (side other)) := by
  have same : (patches.map fun other => middle.carried (side other)) =
      patches.map fun other => before.carried (side other) :=
    List.map_congr_left fun other member => extends_.carried_eq (foundedRest other member)
  rw [rest, same, stacked.weave, ← Weave.stackWeaves_eq founded extends_, ← stackAll_cons]
  refine extends_.stackAll_eq (List.forall_mem_cons.mpr ⟨founded, List.forall_mem_cons.mpr
    ⟨foundedGiven, fun weave member => ?_⟩⟩)
  rcases List.mem_map.mp member with ⟨other, inside, rfl⟩
  exact foundedRest other inside

private theorem Advised.inTurn {former advised last : Descriptor}
    (advises : before.Advised middle former patch advised) (founds : before.FoundsAccessor former)
    (advising : ∀ other ∈ patch :: patches, other.Advising before)
    (rest : middle.AdvisedInTurn after advised patches last) :
    before.AdvisedInTurn after former (patch :: patches) last := by
  rw [List.forall_mem_cons] at advising
  exact {
    accessor := rest.accessor
    getter := advises.getter.stackAll extends_ founds.getter (advising.1.founded "get")
      (fun other member => (advising.2 other member).founded "get") rest.getter
    setter := advises.setter.stackAll extends_ founds.setter (advising.1.founded "set")
      (fun other member => (advising.2 other member).founded "set") rest.setter
    enumerable := rest.enumerable.trans advises.enumerable
    configurable := rest.configurable.trans advises.configurable }

end InTurn

end Store

namespace Composite

/-- The table of a type and the tables that it will be extended with, what they delegate to, and the
objects that are made until the advice is installed that the first of the tables gives on a name. -/
def involved (budget : Nat) (name : String) (table : ObjectId) (tables : List ObjectId)
    (type : Composite) (world : World σ) : List ObjectId :=
  let front := ((type.extendUpTo (.ofBudget budget) table name).run world).2.store
  world.store.involved (type.prototype :: table :: tables)
    (front.objects.size - world.store.objects.size + 2)

/-- Whether user code leaves all that alone while a type is extended with one bare table after the
other, and already until the advice on the name is installed. -/
def HarmlessInTurn (budget : Nat) (name : String) : List ObjectId → ProcedureId → World σ → Prop
  | [], _, _ => True
  | table :: tables, type, world =>
      ∀ composite, world.store.composite? type = some composite →
        Harmless (· ∈ composite.involved budget name table tables world)
          (fun meaning => composite.extendUpTo meaning table name) budget world ∧
        Harmless (· ∈ composite.involved budget name table tables world)
          (fun meaning => composite.extend meaning [.object table]) budget world ∧
        ∀ next later, (composite.extend (.ofBudget budget) [.object table]).run world =
            (.ok next, later) →
          HarmlessInTurn budget name tables next later

section Involved

variable {budget : Nat} {name : String} {table : ObjectId} {tables : List ObjectId}
  {type : Composite} {world : World σ}

private theorem mem_involved {among level : ObjectId}
    (member : among ∈ type.prototype :: table :: tables)
    (inside : level ∈ world.store.ancestry among) :
    level ∈ type.involved budget name table tables world :=
  Store.mem_involved member inside

private theorem nextObject_mem_involved :
    world.store.nextObject ∈ type.involved budget name table tables world :=
  List.mem_append_right _ (Store.mem_upcoming_iff.mpr
    ⟨Nat.le_refl _, Nat.lt_add_of_pos_right (Nat.succ_pos _)⟩)

private theorem draft_mem_involved {passed : List Conflict} {front : World σ} {draft : ObjectId}
    (ran : (type.extendUpTo (.ofBudget budget) table name).run world = (.ok passed, front))
    (upcoming : draft ∈ front.store.upcoming 2) :
    draft ∈ type.involved budget name table tables world := by
  have evolves := Meaning.evolving_ofBudget (σ := σ) budget
  have evolving : (type.extendUpTo (.ofBudget budget : Meaning σ) table name).Evolving := by
    apply Follows.bind (Sources.evolving_delegate _)
    intro target
    apply Follows.bind (Definer.evolving_ofValue evolves _)
    intro definer
    apply Follows.bind Follows.getStore
    intro store
    exact Follows.foldlM
      (fun held other => (Merge.respects_evolution evolves _ other).mixMember table held) _ _
  have reached : ((type.extendUpTo (.ofBudget budget) table name).run world).2 = front :=
    congrArg Prod.snd ran
  have grown := (evolving world).1.extends.size_le
  rw [reached] at grown
  rw [Store.mem_upcoming_iff] at upcoming
  refine List.mem_append_right _ (Store.mem_upcoming_iff.mpr ?_)
  rw [reached]
  omega

end Involved

structure AwaitsAdvice (budget : Nat) (steps : List (ObjectId × Patch)) (name : String)
    (former : Descriptor) (type : Composite) (world : World σ) : Prop where
  rooted : world.store.Rooted
  stands : type.Stands world.store
  founds : world.store.FoundsAccessor former
  resolved : world.store.descriptor? type.prototype name = some former
  patching : ∀ step ∈ steps, world.store.Patches step.1 name step.2 ∧ step.2.Advising world.store
  harmless : HarmlessInTurn budget name (steps.map Prod.fst) type.procedure world

namespace AwaitsAdvice

variable {budget : Nat} {table : ObjectId} {patch : Patch} {steps : List (ObjectId × Patch)}
  {name : String} {former : Descriptor} {type : Composite} {world later : World σ}
  {next : ProcedureId}

section Step

variable (awaits : AwaitsAdvice (budget + 2) ((table, patch) :: steps) name former type world)

include awaits

private theorem drafts {passed : List Conflict} {front : World σ}
    (ran : (type.extendUpTo (.sheltering (· ∈ type.involved (budget + 2) name table
      (steps.map Prod.fst) world) (budget + 2)) table name).run world = (.ok passed, front)) :
    ∀ draft ∈ front.store.upcoming 2,
      draft ∈ type.involved (budget + 2) name table (steps.map Prod.fst) world :=
  fun _ => draft_mem_involved ((awaits.harmless type awaits.stands.found).1.symm.trans ran)

theorem exists_run_extend (raw : type.definer = none)
    (only : world.store.DecoratesOnly table name) :
    ∃ next later, (type.extend (.ofBudget (budget + 2)) [.object table]).run world =
      (.ok next, later) := by
  rcases awaits.patching _ (List.mem_cons_self ..) with ⟨patches, advising⟩
  rcases exists_run_extend_patching awaits.rooted awaits.stands patches advising awaits.founds
    awaits.resolved (fun level => mem_involved (List.mem_cons_self ..))
    (fun level => mem_involved (List.mem_cons_of_mem _ (List.mem_cons_self ..)))
    nextObject_mem_involved (fun passed front => awaits.drafts) raw only with ⟨next, later, ran⟩
  exact ⟨next, later, (awaits.harmless type awaits.stands.found).2.1.symm.trans ran⟩

theorem step (ran : (type.extend (.ofBudget (budget + 2)) [.object table]).run world =
      (.ok next, later)) :
    ∃ (built : Composite) (advised : Descriptor), next = built.procedure ∧
      AwaitsAdvice (budget + 2) steps name advised built later ∧ built.definer = none ∧
      world.store.Keeps (· ∈ type.involved (budget + 2) name table (steps.map Prod.fst) world)
        later.store ∧
      later.store.parent built.prototype = some type.prototype ∧
      world.store.Advised later.store former patch advised := by
  rcases awaits.patching _ (List.mem_cons_self ..) with ⟨patches, advising⟩
  rcases awaits.harmless type awaits.stands.found with ⟨_, unharmed, onward⟩
  rcases extend_patching awaits.rooted awaits.stands patches advising awaits.founds
    awaits.resolved (fun level => mem_involved (List.mem_cons_self ..))
    (fun level => mem_involved (List.mem_cons_of_mem _ (List.mem_cons_self ..)))
    nextObject_mem_involved (fun passed front => awaits.drafts) (unharmed.trans ran) with
    ⟨built, advised, rfl, keeps, stands, raw, parent, own, advises⟩
  refine ⟨built, advised, rfl, ⟨keeps.rooted awaits.rooted, stands, advises.founds,
    Store.descriptor?_of_own own, fun step member => ?_, onward _ _ ran⟩, raw, keeps, parent,
    advises⟩
  have among : step.1 ∈ type.prototype :: table :: steps.map Prod.fst :=
    List.mem_cons_of_mem _ (List.mem_cons_of_mem _ (List.mem_map_of_mem member))
  rcases awaits.patching step (List.mem_cons_of_mem _ member) with ⟨patchesToo, advisingToo⟩
  exact ⟨patchesToo.later keeps awaits.rooted fun level => mem_involved among,
    advisingToo.later keeps.extends_⟩

end Step

private theorem run_extendInTurn (awaits : AwaitsAdvice budget steps name former type world)
    (ran : (type.extend (.ofBudget budget) [.object table]).run world = (.ok next, later))
    (groups : List (List Value)) :
    (extendInTurn (.ofBudget budget) ([.object table] :: groups) type.procedure).run world =
      (extendInTurn (.ofBudget budget) groups next).run later := by
  rw [extendInTurn, Action.run_getStore_bind, awaits.stands.found]
  exact Action.run_bind_of_ok _ ran

theorem advisedInTurn {last : ProcedureId}
    (awaits : AwaitsAdvice (budget + 2) steps name former type world)
    (ran : (extendInTurn (.ofBudget (budget + 2)) (steps.map fun step => [.object step.1])
      type.procedure).run world = (.ok last, later)) :
    ∃ (built : Composite) (advised : Descriptor), last = built.procedure ∧
      world.store.Keeps (· ∈ world.store.ancestry type.prototype) later.store ∧
      built.Stands later.store ∧ later.store.descriptor? built.prototype name = some advised ∧
      world.store.AdvisedInTurn later.store former (steps.map Prod.snd) advised := by
  induction steps generalizing world type former with
  | nil =>
      cases ran
      exact ⟨type, former, rfl, .refl _ _, awaits.stands, awaits.resolved, awaits.founds.accessor,
        rfl, rfl, rfl, rfl⟩
  | cons step steps induction =>
      rcases step with ⟨table, patch⟩
      have extends_ : ∃ next between, (type.extend (.ofBudget (budget + 2)) [.object table]).run
          world = (.ok next, between) := by
        rw [List.map_cons, extendInTurn, Action.run_getStore_bind, awaits.stands.found] at ran
        rcases succeeded_of_bind ran with ⟨next, between, ranFirst, _⟩
        exact ⟨next, between, ranFirst⟩
      rcases extends_ with ⟨next, between, ranFirst⟩
      rw [List.map_cons, awaits.run_extendInTurn ranFirst] at ran
      rcases awaits.step ranFirst with ⟨built, advised, rfl, awaitsRest, _, keeps, parent, advises⟩
      rcases induction awaitsRest ran with
        ⟨last, advisedLast, rfl, keepsRest, stands, resolved, advisesRest⟩
      have line : between.store.ancestry built.prototype =
          built.prototype :: world.store.ancestry type.prototype := by
        rw [Store.ancestry_eq awaitsRest.rooted, parent]
        exact congrArg _ (keeps.extends_.ancestry_eq awaits.rooted awaitsRest.rooted
          awaits.stands.known)
      refine ⟨last, advisedLast, rfl, ?_, stands, resolved,
        advises.inTurn keeps.extends_ awaits.founds (List.forall_mem_cons.mpr
          ⟨(awaits.patching _ (List.mem_cons_self ..)).2, ?_⟩) advisesRest⟩
      · have kept := keeps.mono fun object _ => mem_involved (List.mem_cons_self ..)
        refine kept.trans (keepsRest.mono fun object _ inside => ?_)
        rw [line]
        exact List.mem_cons_of_mem _ inside
      · intro other member
        rcases List.mem_map.mp member with ⟨step, inside, rfl⟩
        exact (awaits.patching step (List.mem_cons_of_mem _ inside)).2

theorem exists_run_extendInTurn (awaits : AwaitsAdvice (budget + 2) steps name former type world)
    (raw : type.definer = none) (only : ∀ step ∈ steps, world.store.DecoratesOnly step.1 name) :
    ∃ last later, (extendInTurn (.ofBudget (budget + 2)) (steps.map fun step => [.object step.1])
      type.procedure).run world = (.ok last, later) := by
  induction steps generalizing world type former with
  | nil => exact ⟨type.procedure, world, rfl⟩
  | cons step steps induction =>
      rcases step with ⟨table, patch⟩
      rcases awaits.exists_run_extend raw (only (table, patch) (List.mem_cons_self ..)) with
        ⟨next, between, ran⟩
      rcases awaits.step ran with ⟨built, advised, rfl, awaitsRest, raw, keeps, _⟩
      rw [List.map_cons, awaits.run_extendInTurn ran]
      refine induction awaitsRest raw fun step member => ?_
      have among : step.1 ∈ type.prototype :: table :: steps.map Prod.fst :=
        List.mem_cons_of_mem _ (List.mem_cons_of_mem _ (List.mem_map_of_mem member))
      exact (only step (List.mem_cons_of_mem _ member)).later keeps awaits.rooted
        (fun level => mem_involved among)
        (awaits.patching step (List.mem_cons_of_mem _ member)).1.known

end AwaitsAdvice

theorem harmlessInTurn_of_uncalled {budget : Nat} (name : String) {tables : List ObjectId}
    {type last : ProcedureId} {world later : World σ}
    (ran : (extendInTurn (.uncalled budget) (tables.map fun table => [.object table]) type).run
      world = (.ok last, later)) : HarmlessInTurn budget name tables type world := by
  induction tables generalizing type world with
  | nil => trivial
  | cons table tables induction =>
      intro composite found
      rw [List.map_cons, extendInTurn, Action.run_getStore_bind, found] at ran
      rcases Action.succeeded_of_bind ran with ⟨next, between, ranFirst, ranRest⟩
      rcases exists_run_extendUpTo ranFirst name with ⟨passed, front, ranUpTo⟩
      have sheltering (kept : ObjectId → Prop) [DecidablePred kept] :=
        Meaning.uncalled_upheldBy_sheltering (σ := σ) kept budget
      have plain := Meaning.upheldBy_uncalled (σ := σ) budget
      have upheld := plain.compose composite.composer _ _ _ _ ranFirst
      refine ⟨?_, ?_, fun other now ranOther => ?_⟩
      · exact (upheld_extendUpTo (sheltering _) composite table name _ _ _ ranUpTo).trans
          (upheld_extendUpTo plain composite table name _ _ _ ranUpTo).symm
      · exact ((sheltering _).compose composite.composer _ _ _ _ ranFirst).trans upheld.symm
      · cases ranOther.symm.trans upheld
        exact induction ranRest

/-- Advice on accessors is stacked, as long as user code that weaves leaves alone what is involved.
An object that inherits an accessor and installs a patch which gives advice on the getter or the
setter comes to own an accessor with the same flags: what the patch gives is stacked on what was
there, and the other procedure stays. Nothing else that the object owns has changed, nor what it
delegates to. Along a chain of extensions of a type with bare tables that give such patches, the
layers of the getter and of the setter are those of all steps, in order and each once, after the
ones that were there; the chain goes through if the tables show no other decorators. -/
theorem accessors_stack {budget : Nat} {world : World σ} {target : ObjectId} {name : String}
    {former : Descriptor} (rooted : world.store.Rooted)
    (founds : world.store.FoundsAccessor former)
    (resolved : world.store.descriptor? target name = some former) :
    (∀ patch : Patch, patch.Advising world.store →
      world.store.ownDescriptor? target name = none →
      Harmless (· ∈ world.store.involved [target] 2)
        (fun meaning => Decorator.install meaning (.patch patch) target name) (budget + 1) world →
      ∃ advised later,
        (Decorator.install (.ofBudget (budget + 1)) (.patch patch) target name).run world =
          (.ok (), later) ∧
        later.store.ownDescriptor? target name = some advised ∧
        world.store.Advised later.store former patch advised ∧
        (∀ other ≠ name, later.store.ownDescriptor? target other =
          world.store.ownDescriptor? target other) ∧
        ∀ ancestor ∈ world.store.ancestors target,
          later.store.members ancestor = world.store.members ancestor) ∧
    ∀ (type : Composite) (steps : List (ObjectId × Patch)), type.Stands world.store →
      type.prototype = target →
      (∀ step ∈ steps, world.store.Patches step.1 name step.2 ∧ step.2.Advising world.store) →
      HarmlessInTurn (budget + 2) name (steps.map Prod.fst) type.procedure world →
      let chain : Action σ ProcedureId := extendInTurn (.ofBudget (budget + 2))
        (steps.map fun step => [.object step.1]) type.procedure
      (type.definer = none → (∀ step ∈ steps, world.store.DecoratesOnly step.1 name) →
        ∃ last later, chain.run world = (.ok last, later)) ∧
      ∀ last later, chain.run world = (.ok last, later) →
        ∃ (built : Composite) (advised : Descriptor), last = built.procedure ∧
          built.Stands later.store ∧ later.store.descriptor? built.prototype name = some advised ∧
          world.store.AdvisedInTurn later.store former (steps.map Prod.snd) advised ∧
          ((world.store.carried former.getter?).layers.Nodup →
            (later.store.carried advised.getter?).layers =
              ((world.store.carried former.getter?).layers ++ steps.flatMap fun step =>
                (world.store.carried step.2.getter).layers).eraseDups) ∧
          ((world.store.carried former.setter?).layers.Nodup →
            (later.store.carried advised.setter?).layers =
              ((world.store.carried former.setter?).layers ++ steps.flatMap fun step =>
                (world.store.carried step.2.setter).layers).eraseDups) ∧
          ∀ level ∈ world.store.ancestry target,
            later.store.members level = world.store.members level := by
  have known := Store.hasObject_of_descriptor? resolved
  refine ⟨fun patch advising unowned harmless => ?_,
    fun type steps stands table patching harmless => ?_⟩
  · have sheltered : target ∈ world.store.involved [target] 2 :=
      Store.mem_involved (List.mem_singleton.mpr rfl) (List.mem_cons_self ..)
    rcases Decorator.exists_run_install_advising (· ∈ world.store.involved [target] 2) budget
      advising founds (fun object => List.mem_append_right _) name known sheltered unowned resolved
      with ⟨advised, drafted, ran, keeps, advises⟩
    have knownThen := (keeps.extends_.object target known).1
    have written := Store.ChangesOnly.of_storeMember drafted.store target name advised
    refine ⟨advised, _, Eq.trans harmless.symm ran,
      Store.ownDescriptor?_storeMember_same _ target name advised knownThen,
      advises.later written.extends_, fun other different => ?_, fun ancestor member => ?_⟩
    · rw [Store.ownDescriptor?_storeMember_other _ _ fun both => different both.2,
        Store.ownDescriptor?, keeps.members target known sheltered, ← Store.ownDescriptor?]
    · have apart : ancestor ≠ target := fun same =>
        Store.not_mem_ancestors_self rooted target (same ▸ member)
      have there := Store.hasObject_of_mem_ancestry rooted known (List.mem_of_mem_tail member)
      rw [written.members ancestor (keeps.extends_.object ancestor there).1 apart,
        keeps.members ancestor there (Store.mem_involved (List.mem_singleton.mpr rfl)
          (List.mem_of_mem_tail member))]
  · subst table
    have awaits : AwaitsAdvice (budget + 2) steps name former type world :=
      ⟨rooted, stands, founds, resolved, patching, harmless⟩
    refine ⟨fun raw only => awaits.exists_run_extendInTurn raw only, fun last later ran => ?_⟩
    rcases awaits.advisedInTurn ran with
      ⟨built, advised, itself, keeps, standsLast, resolvedLast, advises⟩
    have layers {start : Weave} (unique : start.layers.Nodup) (side : Patch → Option ProcedureId) :
        (world.store.stackAll start
            ((steps.map Prod.snd).map fun patch => world.store.carried (side patch))).layers =
          (start.layers ++ steps.flatMap fun step =>
            (world.store.carried (side step.2)).layers).eraseDups := by
      rw [Store.layers_stackAll_eq_eraseDups unique, List.flatMap_cons, List.map_map,
        List.flatMap_map]
      rfl
    refine ⟨built, advised, itself, standsLast, resolvedLast, advises, fun unique => ?_,
      fun unique => ?_, fun level member => ?_⟩
    · rw [advises.getter, layers unique]
    · rw [advises.setter, layers unique]
    · exact keeps.members level (Store.hasObject_of_mem_ancestry rooted stands.known member) member

def accessingType : Composite where
  procedure := ⟨6⟩
  prototype := ⟨1⟩
  bases := ⟨[], [⟨1⟩]⟩
  composer := {}

/-- A type whose table inherits an accessor, two bare tables that give advice on it, and advice that
replaces what is inherited while it is woven. -/
def accessing : World Unit where
  store := {
    objects := #[
      { members := .ofEntries [("n", ⟨.accessor (some ⟨1⟩) none, true, true⟩)] },
      { parent := some ⟨0⟩ },
      { members := .ofEntries [("m", .ofValue .null), ("n", .ofValue (.procedure ⟨4⟩))] },
      { members := .ofEntries [("n", .ofValue (.procedure ⟨5⟩))] }]
    procedures := #[
      { body := .required }, { body := .code ⟨0⟩ },
      { body := .unapplied none, hook := some (.weave (.single ⟨0⟩)),
        mark := some (.weave (.single ⟨0⟩)) },
      { body := .unapplied none, hook := some (.weave (.single ⟨1⟩)),
        mark := some (.weave (.single ⟨1⟩)) },
      { body := .unapplied none, hook := some (.patch { getter := some ⟨2⟩ }) },
      { body := .unapplied none,
        hook := some (.patch { getter := some ⟨3⟩, setter := some ⟨2⟩ }) },
      { body := .composite ⟨0⟩ },
      { body := .unapplied none, hook := some (.weave (.single ⟨2⟩)),
        mark := some (.weave (.single ⟨2⟩)) }]
    layers := #[{ advice := .before ⟨0⟩ }, { advice := .after ⟨1⟩ },
      { advice := .around ⟨1⟩ (.thrown "no procedure") }]
    composites := #[accessingType] }
  codes := #[fun _ => .done (.ok .undefined), fun
    | .weave (some base) =>
        .ask (.define ⟨0⟩ "n" (.ofValue .null)) fun _ => .done (.ok (.procedure base))
    | _ => .done (.ok .undefined)]
  state := ()

private theorem isAdvice_of_accessing {decorator : ProcedureId} {layer : LayerId}
    (hooked : (accessing.store.procedure decorator).hook = some (.weave (.single layer)))
    (marked : (accessing.store.procedure decorator).mark = some (.weave (.single layer))) :
    accessing.store.IsAdvice decorator :=
  (Store.IsAdvice.of_mark hooked marked
    (fun empty => List.cons_ne_nil _ _ (congrArg Weave.layers empty)) (List.nodup_singleton _)
    fun root equal => absurd equal.symm (Option.some_ne_none root)).1

/-- Two layers come to be on the getter, and the second step gives a setter. -/
theorem accessors_stack_of_accessing :
    (∃ advised later, (Decorator.install (.ofBudget 1) (.patch { getter := some ⟨2⟩ }) ⟨1⟩ "n").run
          accessing = (.ok (), later) ∧
        later.store.ownDescriptor? ⟨1⟩ "n" = some advised ∧
        later.store.carried advised.getter? = ⟨some ⟨1⟩, [⟨0⟩]⟩) ∧
      ∃ (built : Composite) (advised : Descriptor) (later : World Unit),
        (extendInTurn (.ofBudget 2) [[.object ⟨2⟩], [.object ⟨3⟩]] ⟨6⟩).run accessing =
          (.ok built.procedure, later) ∧
        later.store.descriptor? built.prototype "n" = some advised ∧
        later.store.carried advised.getter? = ⟨some ⟨1⟩, [⟨0⟩, ⟨1⟩]⟩ ∧
        later.store.carried advised.setter? = .single ⟨0⟩ := by
  have before : accessing.store.IsAdvice ⟨2⟩ := isAdvice_of_accessing rfl rfl
  have after : accessing.store.IsAdvice ⟨3⟩ := isAdvice_of_accessing rfl rfl
  have missing {decorator : ProcedureId} (given : none = some decorator) :
      accessing.store.IsAdvice decorator := absurd given.symm (Option.some_ne_none decorator)
  have first : Patch.Advising { getter := some ⟨2⟩ } accessing.store :=
    ⟨rfl, fun _ given => Option.some.inj given ▸ before, fun _ => missing⟩
  have second : Patch.Advising { getter := some ⟨3⟩, setter := some ⟨2⟩ } accessing.store :=
    ⟨rfl, fun _ given => Option.some.inj given ▸ after,
      fun _ given => Option.some.inj given ▸ before⟩
  have founds : accessing.store.FoundsAccessor ⟨.accessor (some ⟨1⟩) none, true, true⟩ :=
    ⟨rfl, fun _ carries => Option.some.inj carries ▸ rfl,
      fun _ carries => absurd carries.symm (Option.some_ne_none _)⟩
  have rooted : accessing.store.Rooted := Store.rooted_iff.mpr (by decide)
  have resolved : accessing.store.descriptor? ⟨1⟩ "n" =
      some ⟨.accessor (some ⟨1⟩) none, true, true⟩ := rfl
  have installed : (Decorator.installUnasked (.uncalled 1) (.patch { getter := some ⟨2⟩ }) ⟨1⟩
      "n").run accessing = (.ok (), _) := Action.run_eq_of_toOption _ _ _ (by decide +kernel)
  have extended : (extendInTurn (.uncalled 2) ([⟨2⟩, ⟨3⟩].map fun table => [.object table]) ⟨6⟩).run
      accessing = (.ok ⟨19⟩, _) := Action.run_eq_of_toOption _ _ _ (by decide +kernel)
  have patchesFirst : accessing.store.Patches ⟨2⟩ "n" { getter := some ⟨2⟩ } :=
    ⟨rfl, ⟨4⟩, ⟨by decide +kernel, rfl⟩, rfl, rfl⟩
  have patchesSecond : accessing.store.Patches ⟨3⟩ "n"
      { getter := some ⟨3⟩, setter := some ⟨2⟩ } :=
    ⟨rfl, ⟨5⟩, ⟨by decide +kernel, rfl⟩, rfl, rfl⟩
  have patching : ∀ step ∈ [((⟨2⟩ : ObjectId), ({ getter := some ⟨2⟩ } : Patch)),
        (⟨3⟩, { getter := some ⟨3⟩, setter := some ⟨2⟩ })],
      accessing.store.Patches step.1 "n" step.2 ∧ step.2.Advising accessing.store :=
    List.forall_mem_cons.mpr ⟨⟨patchesFirst, first⟩, List.forall_mem_cons.mpr
      ⟨⟨patchesSecond, second⟩, List.forall_mem_nil _⟩⟩
  rcases (accessors_stack rooted founds resolved).1 _ first rfl
    (Decorator.harmless_of_uncalled installed) with ⟨advised, later, ran, own, advises, _⟩
  rcases (accessors_stack rooted founds resolved).2 accessingType _ ⟨rfl, rfl⟩ rfl patching
    (harmlessInTurn_of_uncalled "n" extended) with ⟨goes, comes⟩
  rcases goes rfl (by decide +kernel) with ⟨last, through, ranThrough⟩
  rcases comes last through ranThrough with
    ⟨built, advisedLast, rfl, _, resolvedLast, advisesLast, _⟩
  exact ⟨⟨advised, later, ran, own, advises.getter.weave⟩, built, advisedLast, through, ranThrough,
    resolvedLast, advisesLast.getter, advisesLast.setter⟩

/-- User code that weaves may replace what is inherited, before the target comes to own it. -/
theorem advice_may_replace_inherited :
    accessing.store.ownDescriptor? ⟨0⟩ "n" = some ⟨.accessor (some ⟨1⟩) none, true, true⟩ ∧
    accessing.store.descriptor? ⟨1⟩ "n" = some ⟨.accessor (some ⟨1⟩) none, true, true⟩ ∧
    accessing.store.ownDescriptor? ⟨1⟩ "n" = none ∧
    Patch.Advising { getter := some ⟨7⟩ } accessing.store ∧
    let installed := (Decorator.install (.ofBudget 2) (.patch { getter := some ⟨7⟩ }) ⟨1⟩ "n").run
      accessing
    installed.1.toOption = some () ∧
      installed.2.store.ownDescriptor? ⟨0⟩ "n" = some (.ofValue .null) :=
  ⟨rfl, rfl, rfl,
    ⟨rfl, fun _ given => Option.some.inj given ▸ isAdvice_of_accessing rfl rfl,
      fun decorator given => absurd given.symm (Option.some_ne_none decorator)⟩,
    by decide +kernel, rfl⟩

end Composite

end TraitComposition
