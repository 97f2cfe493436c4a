import TraitComposition.Proofs.Machine.Evolution
import TraitComposition.Proofs.Merge.Outcomes
import TraitComposition.Proofs.Store.Assignment

/-!
Names in a merge. A turn whose name the destination does not resolve yet puts the member of the
source there. So if no turn runs a hook, and the setters that turns run take nothing away, the
destination resolves in the end whatever the sources enumerated at the beginning.
-/
namespace TraitComposition

/-! ### Names that objects resolve -/

namespace Store

theorem has_storeMember {store : Store} {object : ObjectId} (rooted : store.Rooted)
    (known : store.hasObject object = true) (name : String) (descriptor : Descriptor)
    (another : String) :
    (store.storeMember object name descriptor).has object another =
      (another == name || store.has object another) := by
  by_cases same : another = name
  · subst same
    rw [has_of_own (ownDescriptor?_storeMember_same store object another descriptor known),
      beq_self_eq_true, Bool.true_or]
  · rw [beq_false_of_ne same, Bool.false_or, has, has,
      (ChangesWithin.of_storeMember store object name descriptor).lookup_eq rooted known
        fun _ _ both => same both.2]

structure KeepsNames (object : ObjectId) (before after : Store) : Prop where
  has : ∀ name, before.has object name = true → after.has object name = true
  definer : before.has object Definer.memberName = false →
    after.has object Definer.memberName = false

namespace KeepsNames

variable {object : ObjectId} {first second third : Store}

theorem refl (object : ObjectId) (store : Store) : KeepsNames object store store where
  has _ := id
  definer := id

theorem trans (start : KeepsNames object first second) (rest : KeepsNames object second third) :
    KeepsNames object first third where
  has name resolved := rest.has name (start.has name resolved)
  definer missing := rest.definer (start.definer missing)

theorem of_changesWithin (changes : ChangesWithin .nowhere first second) (rooted : first.Rooted)
    (known : first.hasObject object = true) : KeepsNames object first second where
  has name := by rw [changes.has_eq rooted known]; exact id
  definer := by rw [changes.has_eq rooted known]; exact id

theorem of_storeMember (rooted : first.Rooted) (known : first.hasObject object = true)
    {name : String} (descriptor : Descriptor)
    (settled : first.has object name = true ∨ name ≠ Definer.memberName) :
    KeepsNames object first (first.storeMember object name descriptor) where
  has another resolved := by rw [has_storeMember rooted known, resolved, Bool.or_true]
  definer missing := by
    rw [has_storeMember rooted known, missing, Bool.or_false]
    rcases settled with resolved | ordinary
    · apply beq_false_of_ne
      rintro rfl
      rw [resolved] at missing
      cases missing
    · exact beq_false_of_ne ordinary.symm

end KeepsNames

/-- Whether nothing is taken away: an object keeps all its names and comes by no definer, and
what was there before it goes on enumerating what it enumerates. -/
structure Spares (target : ObjectId) (before after : Store) : Prop where
  names : KeepsNames target before after
  listed : ∀ object, object.index < target.index →
    before.enumerableNames object ⊆ after.enumerableNames object

namespace Spares

variable {target : ObjectId} {first second third : Store}

theorem refl (target : ObjectId) (store : Store) : Spares target store store where
  names := .refl target store
  listed _ _ := List.Subset.refl _

theorem trans (start : Spares target first second) (rest : Spares target second third) :
    Spares target first third where
  names := start.names.trans rest.names
  listed object older := List.Subset.trans (start.listed object older) (rest.listed object older)

private theorem of_keepsNames (names : KeepsNames target first second)
    (changes : ChangesWithin (.object target) first second) (rooted : first.Rooted) :
    Spares target first second where
  names := names
  listed object older name listed := by
    rcases mem_enumerableNames_iff.mp listed with ⟨descriptor, resolved, enumerable⟩
    refine mem_enumerableNames_iff.mpr ⟨descriptor, ?_, enumerable⟩
    rw [changes.descriptor?_eq rooted (hasObject_of_descriptor? resolved) fun level member equal =>
      not_mem_ancestry_of_younger rooted older (equal ▸ member)]
    exact resolved

theorem of_changesWithin (changes : ChangesWithin .nowhere first second)
    (rooted : first.Rooted) (known : first.hasObject target = true) : Spares target first second :=
  of_keepsNames (.of_changesWithin changes rooted known) changes.of_nowhere rooted

private theorem of_storeMember (rooted : first.Rooted) (known : first.hasObject target = true)
    {name : String} (descriptor : Descriptor) (ordinary : name ≠ Definer.memberName) :
    Spares target first (first.storeMember target name descriptor) :=
  of_keepsNames (.of_storeMember rooted known descriptor (.inr ordinary))
    ((ChangesWithin.of_storeMember first target name descriptor).mono
      fun _ _ _ within => within.1) rooted

end Spares

end Store

namespace Merge

open Store (ChangesWithin Spares)
open TraitComposition.Action (succeeded_of_bind)

variable {σ : Type} {meaning : Meaning σ} {plan : Plan}

/-! ### What a turn without a hook does

Such a turn spares the names of the destination if it brings no definer, and if the setter that it
may run takes nothing away. -/

namespace Turn

def setter? (turn : Turn σ) (target : ObjectId) : Option ProcedureId :=
  (turn.before.store.descriptor? target turn.name).bind Descriptor.setter?

variable (meaning plan) in
structure Sparing (turn : Turn σ) : Prop where
  undecorated : turn.decorator? plan.target = none
  ordinary : turn.name ≠ Definer.memberName
  setter : ∀ setter, turn.setter? plan.target = some setter → ∀ value now,
    (Passage.evolution σ).leads turn.before now →
      now.store.Spares plan.target
        ((meaning.call setter (.object plan.target) [value]).run now).2.store

variable (meaning plan) in
inductive Puts (turn : Turn σ) : Prop
  | nothing {asked : World σ} {answer : List Conflict}
      (changes : ChangesWithin .nowhere turn.before.store asked.store)
      (none : turn.before.store.has turn.visit.table turn.name = true →
        turn.before.store.has plan.target turn.name = true)
      (ran : turn.run meaning plan = (.ok answer, asked))
  | member {asked : World σ} {answer : List Conflict} (descriptor : Descriptor)
      (changes : ChangesWithin .nowhere turn.before.store asked.store)
      (leads : (Passage.evolution σ).leads turn.before asked)
      (ran : turn.run meaning plan =
        (put meaning plan turn.name descriptor >>= fun _ => pure answer).run asked)

end Turn

section Puts

variable {turn : Turn σ} (evolving : meaning.Evolving)
  (undecorated : turn.decorator? plan.target = none)

include evolving undecorated in
private theorem Turn.puts_of_undecorated : turn.Puts meaning plan := by
  cases turn.outcome meaning plan with
  | nothing asks spared ran => exact .nothing asks.changes spared ran
  | hook decorates => cases undecorated.symm.trans decorates
  | member descriptor asks _ ran =>
      exact .member descriptor asks.changes
        (asks _ (respects_evolution evolving plan turn.name).asks) ran

end Puts

/-! ### Turns that take nothing away -/

section Turn

variable (raw : plan.definer = .raw)

include raw

theorem spares_of_put {world : World σ} (rooted : world.store.Rooted)
    (known : world.store.hasObject plan.target = true) {name : String}
    (ordinary : name ≠ Definer.memberName)
    (setter : ∀ setter,
      (world.store.descriptor? plan.target name).bind Descriptor.setter? = some setter → ∀ value,
        world.store.Spares plan.target
          ((meaning.call setter (.object plan.target) [value]).run world).2.store)
    (descriptor : Descriptor) :
    world.store.Spares plan.target ((put meaning plan name descriptor).run world).2.store := by
  have stores (stored : Descriptor) : world.store.Spares plan.target
      (world.store.storeMember plan.target name stored) :=
    .of_storeMember rooted known stored ordinary
  have defines : world.store.Spares plan.target
      ((Member.define plan.target name descriptor : Action σ Unit).run world).2.store := by
    rw [Member.define, Action.run_getStore_bind]
    split
    · exact stores descriptor
    · exact .refl _ _
  rw [put, raw]
  cases descriptor.value? with
  | none => exact defines
  | some value =>
      simp only [Action.run_getStore_bind]
      split
      · next owns =>
        rw [Store.hasOwn_eq_isSome, Option.isSome_iff_exists] at owns
        rcases owns with ⟨existing, owned⟩
        rcases Member.reached_assign_of_owned meaning owned value with
          ⟨procedure, sets, reached⟩ | reached | reached <;> rw [reached]
        · exact setter procedure (by rwa [Store.descriptor?_of_own owned]) value
        · exact .refl _ _
        · exact stores _
      · exact defines

variable {turn : Turn σ} (evolving : meaning.Evolving) (rooted : turn.before.store.Rooted)
  (known : turn.before.store.hasObject plan.target = true) (sparing : turn.Sparing meaning plan)

include evolving rooted known sparing

private theorem Turn.Sparing.spares :
    turn.before.store.Spares plan.target (turn.run meaning plan).2.store := by
  rcases Turn.puts_of_undecorated evolving sparing.undecorated with
    ⟨changes, _, ran⟩ | @⟨asked, answer, descriptor, changes, leads, ran⟩
  · rw [ran]
    exact .of_changesWithin changes rooted known
  · have put := spares_of_put raw (changes.rooted rooted) (changes.extends_.object _ known).1
      sparing.ordinary (fun setter found value => by
        rw [changes.descriptor?_eq rooted known fun _ _ => id] at found
        exact sparing.setter setter found value asked leads) descriptor
    rw [ran, Action.reached_bind_pure]
    exact (Spares.of_changesWithin changes rooted known).trans put

theorem Turn.has_of_run (shown : turn.before.store.has turn.visit.table turn.name = true)
    {left : List Conflict} {later : World σ} (ran : turn.run meaning plan = (.ok left, later)) :
    later.store.has plan.target turn.name = true := by
  cases resolved : turn.before.store.has plan.target turn.name with
  | true =>
      have spares := sparing.spares raw evolving rooted known
      rw [ran] at spares
      exact spares.names.has _ resolved
  | false =>
      rcases Turn.puts_of_undecorated evolving sparing.undecorated with
        ⟨_, none, _⟩ | @⟨asked, answer, descriptor, changes, _, put⟩
      · rw [none shown] at resolved
        cases resolved
      · rw [← changes.has_eq rooted known] at resolved
        rw [put, Action.run_bind_of_ok _ (run_put_of_not_owned meaning plan descriptor raw
          (Store.ownDescriptor?_of_has resolved))] at ran
        cases ran
        exact Store.has_of_own (Store.ownDescriptor?_storeMember_same _ _ _ _
          (changes.extends_.object _ known).1)

end Turn

/-! ### Names of sources -/

theorem Visit.evolving_mix (evolving : meaning.Evolving) (visit : Visit) (name : String)
    (held : List Conflict) : (visit.mix meaning plan name held).Evolving :=
  visit.follows_mix (respects_evolution evolving plan name) held

section Names

variable (evolving : meaning.Evolving) (raw : plan.definer = .raw)

include evolving raw

theorem names_of_turnsOfNames (visit : Visit) :
    ∀ (names : List String) (held : List Conflict) (world : World σ) {left : List Conflict}
      {later : World σ}, world.store.Rooted → world.store.hasObject plan.target = true →
      (∀ turn ∈ turnsOfNames meaning plan visit names held world, turn.Sparing meaning plan) →
      (names.foldlM (fun held name => visit.mix meaning plan name held) held).run world =
        (.ok left, later) →
      world.store.Spares plan.target later.store ∧
        (visit.table.index < plan.target.index →
          ∀ name ∈ names, name ∈ world.store.enumerableNames visit.table →
            later.store.has plan.target name = true)
  | [], held, world, left, later, rooted, known, sparing, ran => by
      cases ran
      exact ⟨.refl _ _, fun _ => List.forall_mem_nil _⟩
  | first :: names, held, world, left, later, rooted, known, sparing, ran => by
      have evolution : (Passage.evolution σ).leads world
          ((visit.mix meaning plan first held).run world).2 :=
        visit.evolving_mix evolving first held world
      rw [turnsOfNames, List.forall_mem_cons] at sparing
      rw [List.foldlM_cons] at ran
      rcases succeeded_of_bind ran with ⟨between, now, ranFirst, ranRest⟩
      have turn : Turn.run meaning plan ⟨visit, first, held, world⟩ = (.ok between, now) := ranFirst
      have spares := sparing.1.spares raw evolving rooted known
      rw [turn] at sparing spares
      rw [ranFirst] at evolution
      rcases names_of_turnsOfNames visit names between now (rooted.evolves evolution.1)
        (evolution.1.extends.object _ known).1 sparing.2 ranRest with ⟨kept, rest⟩
      refine ⟨spares.trans kept, fun older => List.forall_mem_cons.mpr ⟨fun listed => ?_, ?_⟩⟩
      · exact kept.names.has first (Turn.has_of_run raw evolving rooted known sparing.1
          (Store.has_of_mem_enumerableNames listed) turn)
      · exact fun name member listed => rest older name member (spares.listed _ older listed)

section Sources

variable {index : Nat} {held : List Conflict} {world : World σ} (rooted : world.store.Rooted)
  (known : world.store.hasObject plan.target = true) {left : List Conflict} {later : World σ}

include rooted known

private theorem names_of_turnsOfSource {source : Value}
    (sparing : ∀ turn ∈ turnsOfSource meaning plan index source held world,
      turn.Sparing meaning plan)
    (ran : (mixSource meaning plan index source held).run world = (.ok left, later)) :
    world.store.Spares plan.target later.store ∧
      ∀ table, world.store.Fronts source table → table.index < plan.target.index →
        ∀ name ∈ world.store.enumerableNames table, later.store.has plan.target name = true := by
  rw [run_mixSource_eq_visit] at ran
  unfold turnsOfSource at sparing
  cases starts : Visit.start? index source world.store with
  | none =>
      rw [starts] at ran
      cases ran
  | some started =>
      rcases started with ⟨visit, store⟩
      simp only [starts] at sparing ran
      have changes := Visit.changes_of_start? starts
      have spares := Spares.of_changesWithin changes rooted known
      rcases names_of_turnsOfNames evolving raw visit _ held { world with store := store }
        (changes.rooted rooted) (changes.extends_.object _ known).1 sparing ran with ⟨kept, names⟩
      refine ⟨spares.trans kept, fun table fronts older name shown => ?_⟩
      obtain rfl := Visit.table_of_start? starts fronts
      have listed := spares.listed _ older shown
      exact names older name listed listed

/-- A merge whose turns run no hook and take nothing away ends with a destination that resolves
what it resolved before and what the tables of the sources enumerated. -/
theorem names_of_turns {sources : List Value}
    (sparing : ∀ turn ∈ turns meaning plan index sources held world, turn.Sparing meaning plan)
    (ran : (mixSources meaning plan index sources held).run world = (.ok left, later)) :
    world.store.KeepsNames plan.target later.store ∧
      ∀ source ∈ sources, ∀ table, world.store.Fronts source table →
        table.index < plan.target.index →
        ∀ name ∈ world.store.enumerableNames table, later.store.has plan.target name = true := by
  induction sources generalizing index held world with
  | nil =>
      cases ran
      exact ⟨.refl _ _, List.forall_mem_nil _⟩
  | cons source sources induction =>
      rw [turns, List.forall_mem_append] at sparing
      rcases succeeded_of_bind ran with ⟨between, now, ranFirst, ranRest⟩
      have evolution := follows_mixSource (respects_evolution evolving plan) index source held world
      rcases names_of_turnsOfSource evolving raw rooted known sparing.1 ranFirst with
        ⟨spares, names⟩
      rw [ranFirst] at sparing evolution
      rcases induction (rooted.evolves evolution.1) (evolution.1.extends.object _ known).1
        sparing.2 ranRest with ⟨kept, rest⟩
      refine ⟨spares.names.trans kept, List.forall_mem_cons.mpr ⟨?_, ?_⟩⟩
      · exact fun table fronts older name shown =>
          kept.has name (names table fronts older name shown)
      · exact fun other member table fronts older name shown =>
          rest other member table (fronts.extends evolution.1.extends) older name
            (spares.listed table older shown)

end Sources

end Names

end Merge

end TraitComposition
