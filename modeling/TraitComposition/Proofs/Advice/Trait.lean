import TraitComposition.Proofs.Advice.Stacking
import TraitComposition.Proofs.Composition.Reporting
import TraitComposition.Proofs.Merge.FreshSources

/-!
Composing a trait that advises a shared member. Its sources are the types of its parents, a
new constructor, and a bare table that binds the member to new advice. The type that comes
of it has stacked the orders of its parents, and its own advice over them.
-/
namespace TraitComposition

variable {σ : Type}

/-! ### New advice -/

def Advice.createTable (advice : Advice) (member : String) : Action σ ObjectId := do
  let decorator ← advice.createDecorator
  let table ← Action.edit (·.createObject none)
  Action.change (·.insert table member (.procedure decorator))
  return table

private theorem Advice.run_createDecorator (advice : Advice) (world : World σ) :
    ∃ decorator later,
      (advice.createDecorator).run world = (.ok decorator, { world with store := later }) ∧
      (∀ target, Store.ChangesOnly target world.store later) ∧
      later.hasProcedure decorator = true ∧
      (later.procedure decorator).hook =
        some (.weave (.single ⟨world.store.layers.size⟩)) ∧
      later.layers = world.store.layers.push { advice := advice } := by
  let layer : LayerId := ⟨world.store.layers.size⟩
  let layered := (world.store.addLayer { advice := advice }).2
  let direct := (layered.addProcedure { body := .standalone layer }).2
  let decorator : Procedure :=
    { label := some "decorator"
      body := .unapplied (some ⟨layered.procedures.size⟩)
      hook := some (.weave (.single layer))
      mark := some (.weave (.single layer)) }
  have made := direct.procedure_addProcedure_self decorator
  refine ⟨⟨direct.procedures.size⟩, (direct.addProcedure decorator).2, rfl, fun target => ?_,
    Store.hasProcedure_addProcedure_self .., ?_, rfl⟩
  · exact (Store.ChangesOnly.of_addLayer ..).trans
      ((Store.ChangesOnly.of_addProcedure ..).trans (.of_addProcedure ..))
  · rw [made]

namespace SharedMember

open Store (ChangesOnly Fills)
open TraitGraph (Merges)

structure Binds (shared : SharedMember) (store : Store) (table : ObjectId) (trait : Nat) :
    Prop where
  known : store.hasObject table = true
  alone : store.parent table = none
  bound : ∃ decorator, store.hasProcedure decorator = true ∧
    (store.procedure decorator).hook = some (.weave (.single (shared.layer trait))) ∧
    store.members table = MemberTable.empty.insert shared.name (.ofValue (.procedure decorator))
  advised : store.adviceAfter? (shared.layer trait) = some (shared.advice trait)

variable {shared : SharedMember} {store before after : Store} {target table : ObjectId}
  {trait : Nat}

theorem Binds.later (binds : shared.Binds before table trait)
    (changes : ChangesOnly target before after) (different : table ≠ target) :
    shared.Binds after table trait where
  known := (changes.extends_.object table binds.known).1
  alone := (changes.extends_.object table binds.known).2.trans binds.alone
  bound := by
    rcases binds.bound with ⟨decorator, known, hook, members⟩
    exact ⟨decorator, (changes.extends_.procedure decorator known).1,
      (changes.extends_.hook known).trans hook,
      (changes.members table binds.known different).trans members⟩
  advised := changes.extends_.adviceAfter? binds.advised

theorem run_createTable {world : World σ} (next : shared.layer trait = ⟨world.store.layers.size⟩) :
    ∃ table later,
      ((Advice.after (shared.advice trait)).createTable shared.name).run world =
        (.ok table, { world with store := later }) ∧
      (∀ target, ChangesOnly target world.store later) ∧
      later.layers.size = world.store.layers.size + 1 ∧ shared.Binds later table trait := by
  rcases (Advice.after (shared.advice trait)).run_createDecorator world with
    ⟨decorator, decorated, ran, changes, known, hook, layers⟩
  have new : decorated.hasObject decorated.nextObject = false := by
    simp [Store.hasObject, Store.nextObject]
  have inStore : (decorated.createObject none).2.hasObject decorated.nextObject = true :=
    Store.hasObject_createObject_self decorated none
  refine ⟨decorated.nextObject, (decorated.createObject none).2.insert decorated.nextObject
    shared.name (.procedure decorator), ?_, fun target => ?_, ?_, ?_⟩
  · rw [Advice.createTable, Action.run_bind_of_ok _ ran]
    rfl
  · refine (changes target).trans (ChangesOnly.of_new (.trans (.of_createObject _ _ _)
      (.of_storeMember _ _ _ _)) new target)
  · exact (congrArg Array.size layers).trans (Array.size_push _)
  · refine
      { known := ?_
        alone := ?_
        bound := ⟨decorator, known, next ▸ hook, ?_⟩
        advised := ?_ }
    · rw [Store.insert, Store.storeMember, Store.hasObject_updateMembers]
      exact inStore
    · rw [Store.insert, Store.storeMember, Store.parent_updateMembers, Store.parent,
        Store.nextObject, Store.object_createObject_self]
      rfl
    · rw [Store.insert, Store.storeMember, Store.members_updateMembers_same _ _ _ inStore,
        Store.members, Store.nextObject, Store.object_createObject_self]
    · have found : decorated.layer (shared.layer trait) =
          some { advice := .after (shared.advice trait) } := by
        simp [Store.layer, layers, next]
      change decorated.adviceAfter? (shared.layer trait) = _
      simp [Store.adviceAfter?, found]

/-! ### Merging a trait -/

section Merging

variable (meaning : Meaning σ) {order : List Nat} {method : ProcedureId}

private theorem Binds.run_mixSource (plan : Merge.Plan) (index : Nat) (world : World σ)
    (binds : shared.Binds world.store table trait)
    (destination : shared.Destination world.store plan.target order method) :
    ∃ later woven,
      (Merge.mixSource meaning.step plan index (.object table) []).run world =
        (.ok [], { world with store := later }) ∧
      Fills plan.target world.store later ∧
      shared.Destination later plan.target (FirstSeen.insert order trait) woven ∧
      later.ownDescriptor? plan.target shared.name = some (.ofValue (.procedure woven)) := by
  rcases binds.bound with ⟨decorator, known, hook, members⟩
  have owned : world.store.ownDescriptor? table shared.name =
      some (.ofValue (.procedure decorator)) := by
    rw [Store.ownDescriptor?, members, MemberTable.find?_insert_same]
  have single : world.store.enumerableNames table = [shared.name] := by
    rw [Store.enumerableNames_of_alone binds.alone, members, MemberTable.keys_insert_empty]
  have rootless : ∀ root, none = some root → root = shared.root := by simp
  rcases run_installWeave meaning destination (List.cons_ne_nil trait []) rootless
    (fun other member => List.mem_singleton.mp member ▸ binds.advised) with
    ⟨later, woven, ran, fills, final, put⟩
  refine ⟨later, woven, ?_, fills, final, put⟩
  rw [Merge.run_mixSource_of_single meaning.step plan index [] single,
    Merge.run_mixMember_of_hook meaning.step plan [] (Store.lookup_of_own owned) rfl hook]
  exact Action.run_bind_of_ok _ ran

theorem run_mixin_of_trait (world : World σ) {rest : List AdvisedType} {constructor : ProcedureId}
    (destination : shared.Destination world.store target order method)
    (ready : ∀ advised ∈ rest, shared.Offers world.store target advised ∧ advised.order ≠ [])
    (others : shared.OthersPlain world.store) (plain : world.store.isPlain constructor = true)
    (tableless : (world.store.procedure constructor).table = none)
    (binds : shared.Binds world.store table trait) (apart : table ≠ target) :
    ∃ later merged woven empty,
      (mixin meaning.step target
        (rest.map AdvisedType.source ++ [.procedure constructor, .object table]) .raw).run world =
          (.ok [], { world with store := later }) ∧
      ChangesOnly target world.store later ∧ later.layers = world.store.layers ∧
      Merges order (rest.map AdvisedType.order) merged ∧
      shared.Destination later target (FirstSeen.insert merged trait) woven ∧
      later.ownDescriptor? target shared.name = some (.ofValue (.procedure woven)) ∧
      later.Tabled constructor empty := by
  let plan : Merge.Plan :=
    ⟨target, .raw, rest.map AdvisedType.source ++ [.procedure constructor, .object table]⟩
  have types : world.store.AllTypes (plan.sources.take (0 + rest.length)) := by
    rw [Nat.zero_add, List.take_left' (List.length_map _)]
    intro source member
    rcases List.mem_map.mp member with ⟨advised, inside, rfl⟩
    exact ⟨_, _, rfl, (ready advised inside).1.houses.found⟩
  rcases brings_mixSources meaning (rfl : plan.definer = .raw) rest 0 destination ready types others
    with ⟨parents, merged, method, ran, fills, merges, between⟩
  -- The constructor gets a table, which nothing delegates to.
  have known := plain
  rw [Store.isPlain, Bool.and_eq_true] at known
  have plainThen := fills.extends_.isPlain plain
  have tablelessThen : (parents.procedure constructor).table = none := by
    rw [fills.procedures constructor known.1]
    exact tableless
  have tabled := Store.tabled_tabling plainThen tablelessThen
  have tabling := ChangesOnly.of_prototypeOf parents constructor
  have destinationThen : shared.Destination (parents.tabling constructor) target merged method :=
    between.later (tabling parents.nextObject)
      (Store.not_mem_ancestry_nextObject between.rooted between.inStore)
  have new := Store.nextObject_ne between.inStore
  -- The advice goes on top of what the parents brought.
  have changes := fills.toChangesOnly.trans (tabling target)
  rcases (binds.later changes apart).run_mixSource meaning plan (0 + rest.length + 1)
      { world with store := parents.tabling constructor } destinationThen with
    ⟨later, woven, ranAdvice, fillsAdvice, final, owned⟩
  refine ⟨later, merged, woven, parents.nextObject, ?_, changes.trans fillsAdvice.toChangesOnly,
    ?_, merges, final, owned, tabled.later fillsAdvice.toChangesOnly new⟩
  · have ranConstructor := Merge.run_mixSource_of_tableless meaning.step plan (0 + rest.length) []
      { world with store := parents } plainThen tablelessThen
    rw [mixin, Merge.mixSources_append, List.length_map, Action.run_bind_of_ok _ ran,
      Merge.mixSources, Action.run_bind_of_ok _ ranConstructor, Merge.mixSources,
      Action.run_bind_of_ok _ ranAdvice]
    rfl
  · rw [fillsAdvice.layers, Store.layers_tabling plainThen tablelessThen, fills.layers]

end Merging

end SharedMember

end TraitComposition
