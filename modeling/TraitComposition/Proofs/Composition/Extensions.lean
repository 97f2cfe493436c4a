import TraitComposition.Proofs.Composition.Presence
import TraitComposition.Proofs.Composition.TwoTypes
import TraitComposition.Proofs.Merge.OrdinaryTables

/-!
Extensions of a type. A type that is extended with an ordinary table gets a type whose table
owns what the bare table holds and inherits the rest, and none of whose hooks is run when it
is merged in turn.
-/
namespace TraitComposition

variable {σ : Type} {meaning : Meaning σ}

namespace Composite

def definition (type : Composite) : Definer :=
  match type.definer with
  | none => .raw
  | some definer => .custom definer

structure Extended (type : Composite) (table : ObjectId) (before : Store) (built : Composite)
    (after : Store) : Prop where
  adds : before.AddsTable type.prototype after
  own : ∀ name, after.ownDescriptor? before.nextObject name =
    if name ∈ before.enumerableNames table then before.descriptor? table name else none
  prototype : built.prototype = before.nextObject
  houses : after.Houses built.procedure built
  raw : built.definer = none

end Composite

private theorem Definer.run_ofValue_eq_definition (meaning : Meaning σ) (world : World σ)
    {type : ProcedureId} {composite : Composite}
    (found : world.store.composite? type = some composite) :
    (Definer.ofValue meaning (.procedure type)).run world = (.ok composite.definition, world) := by
  have definer : world.store.definer? type = composite.definer := by
    rw [Store.definer?, found, Option.bind_some]
  rw [Definer.ofValue, Action.run_getStore_bind, definer, Composite.definition]
  cases composite.definer <;> rfl

namespace Composer

/-! ### Extending -/

theorem settled_of_housed {store : Store} {type : ProcedureId} {composite : Composite}
    {table : ObjectId} (houses : store.Houses type composite)
    (known : store.hasObject table = true) :
    store.Settled [.procedure type, .object table] ∧
      ∀ level ∈ (Store.prototypes [.procedure type, .object table] store).1,
        store.hasObject level = true := by
  have first := Store.sourcePrototypes_of_composite? houses.found
  have settled : store.Settled [.procedure type, .object table] := by
    intro source member
    rcases List.mem_cons.mp member with rfl | member
    · rw [first]
    · rw [List.mem_singleton.mp member]
      rfl
  refine ⟨settled, fun level member => ?_⟩
  rw [Store.prototypes_of_settled settled, FirstSeen.mem_ofList, List.flatMap_cons, first] at member
  rcases List.mem_append.mp member with inside | inside
  · exact houses.known level inside
  · rw [List.mem_singleton.mp inside]
    exact known

section Extending

variable (evolving : meaning.Evolving) (composer : Composer) {world : World σ} {type : Composite}
  {table : ObjectId} (rooted : world.store.Rooted)
  (houses : world.store.Houses type.procedure type)
  (faithful : type.definition.Faithful meaning world)
  (known : world.store.hasObject table = true) (ordinary : world.store.Ordinary table)

include evolving rooted houses faithful known ordinary

private theorem exists_run_composeTable_of_table :
    ∃ merged, (composer.composeTable meaning (.procedure type.procedure) [.object table]).run
        world = (.ok world.store.nextObject, merged) ∧
      world.store.AddsTable type.prototype merged.store ∧
      ∀ name, merged.store.ownDescriptor? world.store.nextObject name =
        if name ∈ world.store.enumerableNames table then world.store.descriptor? table name
        else none := by
  have adds := Store.AddsTable.of_delegating houses.hasObject_prototype
  have apart := Store.not_mem_ancestry_nextObject rooted known
  have delegated := Sources.run_delegate_of_type houses.found
  have evolution : (Passage.evolution σ).leads world
      { world with store := world.store.delegating type.prototype } := by
    have leads := Sources.evolving_delegate (.procedure type.procedure) world
    rwa [delegated] at leads
  have definer := Definer.run_ofValue_eq_definition meaning
    { world with store := world.store.delegating type.prototype }
    (adds.changes.types _ _ houses.found)
  rcases exists_run_mixin_of_table evolving (faithful.later evolution)
    (ordinary.later adds.changes rooted known apart) (adds.changes.rooted rooted)
    adds.hasObject_nextObject (adds.changes.extends_.object _ known).1
    ((adds.changes.ancestry_eq rooted known).symm ▸ apart)
    (world.store.ownDescriptor?_delegating_nextObject type.prototype)
    with ⟨merged, ran, adopts⟩
  refine ⟨merged, ?_, adds.later adopts.toChangesOnly, fun name => ?_⟩
  · rw [composeTable_procedure, Action.run_bind_of_ok _ delegated,
      Action.run_bind_of_ok _ definer, Action.run_bind_of_ok _ ran, run_report_bind, answer_nil]
    rfl
  · rw [adopts.own, adds.enumerableNames_eq rooted known, adds.descriptor?_eq rooted known,
      Store.ownDescriptor?_delegating_nextObject]

theorem exists_run_extend :
    ∃ built later, (type.extend meaning [.object table]).run world =
        (.ok built.procedure, later) ∧
      type.Extended table world.store built later.store := by
  rcases exists_run_composeTable_of_table evolving type.composer rooted houses faithful known
    ordinary with ⟨merged, ran, adds, own⟩
  have composed : (type.extend meaning [.object table]).run world = _ :=
    run_compose meaning type.composer rfl world
  rw [List.headD_cons, List.tail_cons, ran] at composed
  dsimp only at composed
  have chain : chainSources world.store.nextObject [.procedure type.procedure, .object table] =
      [.procedure type.procedure, .object world.store.nextObject] := rfl
  rcases settled_of_housed (houses.later adds.changes) adds.hasObject_nextObject with
    ⟨settled, tables⟩
  have asked := Store.prototypes_of_settled settled
  rw [← chain] at settled tables asked
  rcases exists_houses_enterType type.composer [.procedure type.procedure, .object table]
    adds.hasObject_nextObject (by rw [asked] at tables ⊢; exact tables) with
    ⟨built, housed, same, prototype, raw⟩
  have entered := type.composer.enterType_of_settled [.procedure type.procedure, .object table]
    world.store.nextObject settled
  rw [← same] at composed housed
  refine ⟨built, _, composed, ?_, ?_, prototype, housed, raw⟩
  · rw [entered]
    exact adds.later (.of_addComposite _ _ _ _ _)
  · rw [entered]
    exact own

end Extending
/-! ### What an extension resolves -/

section Extended

variable {type built : Composite} {table : ObjectId} {before after : Store}
  (extended : type.Extended table before built after) (rooted : before.Rooted)
  (houses : before.Houses type.procedure type) (known : before.hasObject table = true)
  {name : String}

include extended

theorem descriptor?_of_extended_listed {descriptor : Descriptor}
    (listed : name ∈ before.enumerableNames table)
    (defined : before.descriptor? table name = some descriptor) :
    after.descriptor? built.prototype name = some descriptor := by
  rw [extended.prototype]
  apply Store.descriptor?_of_own
  rw [extended.own, if_pos listed, defined]

include rooted houses in
theorem lookup_of_extended_unlisted (unlisted : name ∉ before.enumerableNames table) :
    after.lookup built.prototype name = before.lookup type.prototype name ∧
      ∀ owner descriptor, after.lookup built.prototype name = some (owner, descriptor) →
        owner ≠ built.prototype := by
  have unowned : after.ownDescriptor? before.nextObject name = none := by
    rw [extended.own, if_neg unlisted]
  rw [extended.prototype]
  refine ⟨extended.adds.lookup_nextObject rooted houses.hasObject_prototype unowned, ?_⟩
  rintro _ descriptor found rfl
  rw [(Store.ownDescriptor?_of_lookup found).2] at unowned
  cases unowned

include rooted houses in
/-- No hook of an ordinary table ever runs, and those of the extended type are inherited. -/
theorem silent_of_extended (ordinary : before.Ordinary table) (base : Composite)
    (shown : name ∈ after.enumerableNames built.prototype) : Silent after base built name := by
  have rootedAfter := extended.adds.changes.rooted rooted
  by_cases listed : name ∈ before.enumerableNames table
  · apply silent_of_unhooked rootedAfter extended.houses
    rcases Store.mem_enumerableNames_iff.mp listed with ⟨descriptor, defined, _⟩
    intro method holds
    rw [descriptor?_of_extended_listed extended listed defined, ← defined] at holds
    rcases ordinary name listed method holds with ⟨implemented, unhooked⟩
    have there := Store.hasProcedure_of_implemented implemented
    have extends_ := extended.adds.changes.extends_
    exact ⟨(extends_.procedure method there).1, (extends_.hook there).trans unhooked⟩
  · rcases Store.mem_enumerableNames_iff.mp shown with ⟨_, resolved, _⟩
    rcases Option.map_eq_some_iff.mp resolved with ⟨⟨owner, descriptor⟩, found, rfl⟩
    have inherited := (lookup_of_extended_unlisted extended rooted houses listed).2 _ _ found
    exact silent_of_inherited rootedAfter extended.houses found inherited

end Extended
end Composer

end TraitComposition
