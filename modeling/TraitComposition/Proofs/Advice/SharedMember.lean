import Mathlib.Data.List.Basic
import TraitComposition.Decorator
import TraitComposition.Proofs.Advice.Onion
import TraitComposition.Proofs.Flattening.FirstOccurrence
import TraitComposition.Proofs.Merge.Weighing
import TraitComposition.Proofs.Store.Confinement
import TraitComposition.Proofs.Store.NewTable

/-!
A member that traits share. It grew from one procedure, its root, and every trait advises
it once. What a table holds under it is determined by an order of traits: the onion of
their advice, whose hook stacks the same layers wherever it is installed.
-/
namespace TraitComposition

structure SharedMember where
  name : String
  root : ProcedureId
  /-- The number of the layer of the first trait. -/
  firstLayer : Nat
  /-- What each trait calls after what it advises. -/
  advice : Nat → ProcedureId
  /-- What all traits resolve the other names to. -/
  others : String → Option Descriptor

variable {σ : Type} (shared : SharedMember)

namespace SharedMember

open Store (ChangesOnly Fills)

def layer (trait : Nat) : LayerId :=
  ⟨shared.firstLayer + trait⟩

def weave (order : List Nat) : Weave :=
  ⟨some shared.root, order.map shared.layer⟩

private theorem layer_injective : Function.Injective shared.layer := by
  intro first second equal
  simpa [layer] using equal

theorem mem_layers_weave {order : List Nat} {trait : Nat} :
    shared.layer trait ∈ (shared.weave order).layers ↔ trait ∈ order :=
  List.mem_map_of_injective shared.layer_injective

theorem stack_weave (isRequired : ProcedureId → Bool) (order incoming : List Nat)
    {base : Option ProcedureId} (own : ∀ root, base = some root → root = shared.root) :
    (shared.weave order).stack isRequired ⟨base, incoming.map shared.layer⟩ =
      shared.weave (FirstSeen.union order incoming) := by
  have root : Weave.stackRoot isRequired (some shared.root) base = some shared.root := by
    cases base with
    | none => rfl
    | some root => simp [Weave.stackRoot, own root rfl]
  rw [weave, Weave.stack, root, FirstSeen.union_map shared.layer_injective, weave]

/-! ### Woven procedures -/

structure Woven (store : Store) (order : List Nat) (method : ProcedureId) : Prop where
  known : store.hasProcedure method = true
  weave : store.weaveOf (some (.procedure method)) = shared.weave order
  onion : store.Onion shared.root (order.map shared.advice) method
  hooked : order ≠ [] → (store.procedure method).hook = some (.weave (shared.weave order))
  advised : ∀ trait ∈ order,
    store.adviceAfter? (shared.layer trait) = some (shared.advice trait)

theorem Woven.extends {shared : SharedMember} {before after : Store} {order : List Nat}
    {method : ProcedureId} (extends_ : before.Extends after)
    (woven : shared.Woven before order method) : shared.Woven after order method where
  known := (extends_.procedure method woven.known).1
  weave := (extends_.weaveOf woven.known).trans woven.weave
  onion := woven.onion.extends extends_
  hooked layered := (extends_.hook woven.known).trans (woven.hooked layered)
  advised trait member := extends_.adviceAfter? (woven.advised trait member)

/-! ### Tables -/

structure Resolves (store : Store) (table : ObjectId) (order : List Nat)
    (method : ProcedureId) : Prop where
  found : ∃ owner descriptor, store.lookup table shared.name = some (owner, descriptor) ∧
    descriptor.shape = .data (.procedure method) true
  woven : shared.Woven store order method
  others : ∀ name, name ≠ shared.name → store.descriptor? table name = shared.others name

structure Destination (store : Store) (target : ObjectId) (order : List Nat)
    (method : ProcedureId) : Prop extends Resolves shared store target order method where
  rooted : store.Rooted
  inStore : store.hasObject target = true
  plain : ∀ name descriptor, store.ownDescriptor? target name = some descriptor →
    ∃ value, descriptor = .ofValue value

variable {shared} {store before after : Store} {target table : ObjectId} {order : List Nat}
  {method : ProcedureId}

theorem Resolves.dataValue?_eq (resolves : shared.Resolves store table order method) :
    store.dataValue? table shared.name = some (.procedure method) := by
  rcases resolves.found with ⟨owner, descriptor, found, shape⟩
  simp [Store.dataValue?, Store.descriptor?, found, Descriptor.value?, shape]

theorem Resolves.later (resolves : shared.Resolves before table order method)
    (changes : ChangesOnly target before after) (rooted : before.Rooted)
    (known : before.hasObject table = true) (apart : target ∉ before.ancestry table) :
    shared.Resolves after table order method where
  found := by
    rw [changes.lookup_eq rooted known apart]
    exact resolves.found
  woven := resolves.woven.extends changes.extends_
  others name different := by
    rw [changes.descriptor?_eq rooted known apart]
    exact resolves.others name different

namespace Destination

theorem later {other : ObjectId} (destination : shared.Destination before target order method)
    (changes : ChangesOnly other before after) (apart : other ∉ before.ancestry target) :
    shared.Destination after target order method where
  toResolves := destination.toResolves.later changes destination.rooted destination.inStore apart
  rooted := changes.rooted destination.rooted
  inStore := (changes.extends_.object target destination.inStore).1
  plain := by
    have same := changes.members_of_mem_ancestry destination.rooted destination.inStore apart
      (List.mem_cons_self ..)
    simp only [Store.ownDescriptor?, same]
    exact destination.plain

theorem storeMember (destination : shared.Destination before target order method) {name : String}
    {value : Value} {more : List Nat} {woven : ProcedureId}
    (resolves : shared.Resolves (before.storeMember target name (.ofValue value)) target more
      woven) :
    shared.Destination (before.storeMember target name (.ofValue value)) target more woven where
  toResolves := resolves
  rooted := destination.rooted.of_parent_eq (Store.parent_updateMembers _ _ _)
  inStore := by
    rw [Store.storeMember, Store.hasObject_updateMembers]
    exact destination.inStore
  plain other descriptor owned := by
    by_cases same : other = name
    · rw [same, Store.ownDescriptor?_storeMember_same _ _ _ _ destination.inStore] at owned
      cases owned
      exact ⟨value, rfl⟩
    · rw [Store.ownDescriptor?_storeMember_other _ _ fun both => same both.2] at owned
      exact destination.plain other descriptor owned

theorem storeShared (destination : shared.Destination store target order method)
    {more : List Nat} {woven : ProcedureId} (wove : shared.Woven store more woven) :
    shared.Destination (store.storeMember target shared.name (.ofValue (.procedure woven)))
      target more woven :=
  destination.storeMember
    { found := ⟨target, _, Store.lookup_of_own
        (Store.ownDescriptor?_storeMember_same store target _ _ destination.inStore), rfl⟩
      woven := wove.extends (.of_storeMember ..)
      others := fun name different => by
        rw [(Store.Confined.of_storeMember store target _ _).descriptor?_eq destination.rooted
          destination.inStore (by simpa using different)]
        exact destination.others name different }

theorem storeOther (destination : shared.Destination store target order method)
    {name : String} {value : Value} (different : name ≠ shared.name)
    (other : shared.others name = some (.ofValue value)) :
    shared.Destination (store.storeMember target name (.ofValue value)) target order method :=
  destination.storeMember
    { found := by
        rw [(Store.Confined.of_storeMember store target _ _).lookup_eq destination.rooted
          destination.inStore (by simpa using different.symm)]
        exact destination.found
      woven := destination.woven.extends (.of_storeMember ..)
      others := fun another apart => by
        by_cases same : another = name
        · rw [same, other, Store.descriptor?_of_own
            (Store.ownDescriptor?_storeMember_same store target _ _ destination.inStore)]
        · rw [(Store.Confined.of_storeMember store target _ _).descriptor?_eq destination.rooted
            destination.inStore (by simpa using same)]
          exact destination.others another apart }

end Destination

/-! ### Installing advice -/

private theorem woven_of_marked {order : List Nat} {method : ProcedureId}
    (onion : store.Onion shared.root (order.map shared.advice) method)
    (mark : (store.procedure method).mark = some (.weave (shared.weave order)))
    (hook : (store.procedure method).hook = some (.weave (shared.weave order)))
    (advised : ∀ trait ∈ order,
      store.adviceAfter? (shared.layer trait) = some (shared.advice trait)) :
    shared.Woven store order method where
  known := by
    cases known : store.hasProcedure method with
    | true => rfl
    | false =>
        rw [Store.procedure_of_not_hasProcedure known] at mark
        cases mark
  weave := Store.weaveOf_of_mark mark
  onion := onion
  hooked _ := hook
  advised := advised

private theorem Destination.run_assign (meaning : Meaning σ) {world : World σ}
    (destination : shared.Destination world.store target order method) (value : Value) :
    (Member.assign meaning target shared.name value).run world =
      (.ok (), { world with
        store := world.store.storeMember target shared.name (.ofValue value) }) := by
  rcases destination.found with ⟨owner, descriptor, found, shape⟩
  have stored : (if owner = target then descriptor.withValue value else .ofValue value) =
      .ofValue value := by
    split
    · next equal =>
      have owned := (Store.ownDescriptor?_of_lookup found).2
      rw [equal] at owned
      rcases destination.plain _ _ owned with ⟨old, rfl⟩
      rfl
    · rfl
  rw [Member.run_assign meaning value found shape, stored]

/-- Installing the advice of traits on a destination puts the member there with the
layers that were missing, and changes nothing else. -/
theorem run_installWeave (meaning : Meaning σ) {world : World σ}
    (destination : shared.Destination world.store target order method) {incoming : List Nat}
    (layered : incoming ≠ []) {base : Option ProcedureId}
    (own : ∀ root, base = some root → root = shared.root)
    (advised : ∀ trait ∈ incoming,
      world.store.adviceAfter? (shared.layer trait) = some (shared.advice trait)) :
    ∃ later woven,
      (Decorator.installWeave meaning ⟨base, incoming.map shared.layer⟩ target shared.name).run
        world = (.ok (), { world with store := later }) ∧
      Fills target world.store later ∧
      shared.Destination later target (FirstSeen.union order incoming) woven ∧
      later.ownDescriptor? target shared.name = some (.ofValue (.procedure woven)) := by
  have all : ∀ trait ∈ FirstSeen.union order incoming,
      world.store.adviceAfter? (shared.layer trait) = some (shared.advice trait) := by
    intro trait member
    rcases FirstSeen.mem_union.mp member with before | new
    · exact destination.woven.advised trait before
    · exact advised trait new
  have some_ : FirstSeen.union order incoming ≠ [] := by
    rcases List.exists_mem_of_ne_nil incoming layered with ⟨trait, member⟩
    exact List.ne_nil_of_mem (FirstSeen.mem_union.mpr (.inr member))
  rcases Weave.run_build meaning shared.root some_ world all with
    ⟨woven, more, built, onion, mark, hook⟩
  have extends_ := world.store.extends_withProcedures more
  have made := Fills.of_withProcedures world.store more
  have between : shared.Destination (world.store.withProcedures more) target order method :=
    destination.later (made world.store.nextObject).toChangesOnly
      (Store.not_mem_ancestry_nextObject destination.rooted destination.inStore)
  have wove : shared.Woven (world.store.withProcedures more) (FirstSeen.union order incoming)
      woven :=
    woven_of_marked onion mark hook fun trait member => extends_.adviceAfter? (all trait member)
  have stacked : world.store.stackWeaves (world.store.weaveOf
      (world.store.dataValue? target shared.name)) ⟨base, incoming.map shared.layer⟩ =
        shared.weave (FirstSeen.union order incoming) := by
    rw [destination.dataValue?_eq, destination.woven.weave, Store.stackWeaves,
      shared.stack_weave _ order incoming own]
  refine ⟨_, woven, ?_, (made target).trans (.of_storeMember _ target shared.name
    (.ofValue (.procedure woven))), between.storeShared wove,
    Store.ownDescriptor?_storeMember_same _ _ _ _ between.inStore⟩
  rw [Decorator.installWeave, Action.run_getStore_bind]
  dsimp only
  rw [stacked, weave, Action.run_bind_of_ok _ built]
  exact between.run_assign meaning (.procedure woven)

end SharedMember

end TraitComposition
