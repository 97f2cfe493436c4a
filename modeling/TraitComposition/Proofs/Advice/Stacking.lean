import TraitComposition.Proofs.Advice.SharedMember
import TraitComposition.Proofs.TraitGraph.AncestorsFirst

/-!
Merging the types of traits. A type brings the advice of its order to a destination, which
has that of another order already. The member of the type is installed, so that the
missing layers are stacked, unless the type has overridden what the destination holds:
then it has all those layers, and its member is copied.
-/
namespace TraitComposition

variable {σ : Type}

/-! ### Orders that meet -/

namespace TraitGraph

/-- Whether an order comes about when others meet one, in turn. Of each, what is missing
is put at the end, unless it has everything and takes the place of what was there. -/
inductive Merges : List Nat → List (List Nat) → List Nat → Prop
  | done (order : List Nat) : Merges order [] order
  | stacked {order incoming merged : List Nat} {more : List (List Nat)}
      (rest : Merges (FirstSeen.union order incoming) more merged) :
      Merges order (incoming :: more) merged
  | replaced {order incoming merged : List Nat} {more : List (List Nat)}
      (known : order ⊆ incoming) (rest : Merges incoming more merged) :
      Merges order (incoming :: more) merged

namespace Merges

variable {order merged : List Nat} {orders : List (List Nat)}

theorem mem_iff (merges : Merges order orders merged) {trait : Nat} :
    trait ∈ merged ↔ trait ∈ order ∨ ∃ incoming ∈ orders, trait ∈ incoming := by
  induction merges with
  | done => simp
  | stacked rest induction => simp [induction, or_assoc]
  | replaced known rest induction =>
      have early (member : trait ∈ _) := known member
      simp only [induction, List.mem_cons, exists_eq_or_imp]
      constructor
      · exact .inr
      · rintro (member | later)
        · exact .inl (early member)
        · exact later

private theorem append {more : List (List Nat)} {last : List Nat}
    (merges : Merges order orders merged)
    (rest : Merges merged more last) : Merges order (orders ++ more) last := by
  induction merges with
  | done => exact rest
  | stacked _ induction => exact .stacked (induction rest)
  | replaced known _ induction => exact .replaced known (induction rest)

theorem ancestorsFirst {graph : TraitGraph} (merges : Merges order orders merged)
    (start : graph.AncestorsFirst order)
    (each : ∀ incoming ∈ orders, graph.AncestorsFirst incoming) :
    graph.AncestorsFirst merged := by
  induction merges with
  | done => exact start
  | stacked rest induction =>
      rw [List.forall_mem_cons] at each
      exact induction (start.union each.1) each.2
  | replaced known rest induction =>
      rw [List.forall_mem_cons] at each
      exact induction each.1 each.2

end Merges

end TraitGraph

/-! ### Types of traits -/

structure AdvisedType where
  type : ProcedureId
  composite : Composite
  order : List Nat
  method : ProcedureId

namespace AdvisedType

def source (advised : AdvisedType) : Value :=
  .procedure advised.type

end AdvisedType

namespace SharedMember

open Merge
open Store (ChangesOnly Fills)
open TraitGraph (Merges)

variable (shared : SharedMember)

structure Carries (store : Store) (advised : AdvisedType) : Prop where
  houses : store.Houses advised.type advised.composite
  raw : advised.composite.definer = none
  resolves : shared.Resolves store advised.composite.prototype advised.order advised.method
  entered : ∀ table ∈ advised.composite.bases.prototypes, ∀ method,
    store.dataValue? table shared.name = some (.procedure method) →
      store.hasProcedure method = true ∧
        ∀ trait, shared.layer trait ∈ (store.weaveOf (some (.procedure method))).layers →
          trait ∈ advised.order
  owned : advised.order ≠ [] →
    store.ownDescriptor? advised.composite.prototype shared.name =
      some (.ofValue (.procedure advised.method))

def OthersPlain (store : Store) : Prop :=
  ∀ name, name ≠ shared.name → ∀ descriptor, shared.others name = some descriptor →
    descriptor.enumerable = true →
      ∃ value, descriptor = .ofValue value ∧
        ∀ method, value = .procedure method →
          store.hasProcedure method = true ∧ (store.procedure method).hook = none

variable {shared} {store before after : Store} {target : ObjectId} {advised : AdvisedType}

theorem OthersPlain.extends (plain : shared.OthersPlain before)
    (extends_ : before.Extends after) : shared.OthersPlain after := by
  intro name different descriptor other enumerable
  rcases plain name different descriptor other enumerable with ⟨value, simple, hookless⟩
  refine ⟨value, simple, fun method equal => ?_⟩
  rcases hookless method equal with ⟨known, hook⟩
  exact ⟨(extends_.procedure method known).1, (extends_.hook known).trans hook⟩

theorem Carries.later (carries : shared.Carries before advised)
    (changes : ChangesOnly target before after) (rooted : before.Rooted)
    (apart : ∀ table ∈ advised.composite.bases.prototypes, target ∉ before.ancestry table) :
    shared.Carries after advised where
  houses :=
    { found := changes.types _ _ carries.houses.found
      own := carries.houses.own
      known := fun table member =>
        (changes.extends_.object table (carries.houses.known table member)).1 }
  raw := carries.raw
  resolves := carries.resolves.later changes rooted carries.houses.hasObject_prototype
    (apart _ carries.houses.own)
  entered table member method holds := by
    rw [changes.dataValue?_eq rooted (carries.houses.known table member)
      (apart table member)] at holds
    rcases carries.entered table member method holds with ⟨known, layers⟩
    rw [changes.extends_.weaveOf known]
    exact ⟨(changes.extends_.procedure method known).1, layers⟩
  owned layered := by
    have same := changes.members_of_mem_ancestry rooted carries.houses.hasObject_prototype
      (apart _ carries.houses.own) (List.mem_cons_self ..)
    rw [Store.ownDescriptor?, same]
    exact carries.owned layered

theorem Carries.later_of_new (carries : shared.Carries before advised)
    (changes : ChangesOnly before.nextObject before after) (rooted : before.Rooted) :
    shared.Carries after advised :=
  carries.later changes rooted fun table member =>
    Store.not_mem_ancestry_nextObject rooted (carries.houses.known table member)

/-! ### Merging a type -/

structure Offers (shared : SharedMember) (store : Store) (target : ObjectId)
    (advised : AdvisedType) : Prop extends shared.Carries store advised where
  apart : ∀ table ∈ advised.composite.bases.prototypes, target ∉ store.ancestry table

private theorem Offers.later (offers : shared.Offers before target advised)
    (changes : ChangesOnly target before after) (rooted : before.Rooted) :
    shared.Offers after target advised where
  toCarries := offers.toCarries.later changes rooted offers.apart
  apart table member := by
    rw [changes.ancestry_eq rooted (offers.houses.known table member)]
    exact offers.apart table member

def Brings (shared : SharedMember) (target : ObjectId) (action : Action σ (List Conflict))
    (world : World σ) (order : List Nat) (orders : List (List Nat)) : Prop :=
  ∃ later merged method, action.run world = (.ok [], { world with store := later }) ∧
    Fills target world.store later ∧ Merges order orders merged ∧
      shared.Destination later target merged method

private theorem Brings.bind {action : Action σ (List Conflict)}
    {next : List Conflict → Action σ (List Conflict)} {world : World σ} {order : List Nat}
    {orders more : List (List Nat)} (first : shared.Brings target action world order orders)
    (rest : ∀ later merged method, Fills target world.store later →
      shared.Destination later target merged method →
      shared.Brings target (next []) { world with store := later } merged more) :
    shared.Brings target (action >>= next) world order (orders ++ more) := by
  rcases first with ⟨between, merged, method, ran, fills, merges, destination⟩
  rcases rest between merged method fills destination with
    ⟨later, last, woven, ranRest, fillsRest, mergesRest, final⟩
  refine ⟨later, last, woven, ?_, fills.trans fillsRest, merges.append mergesRest, final⟩
  rw [Action.run_bind_of_ok _ ran]
  exact ranRest

section MergingTypes

variable (meaning : Meaning σ) {world : World σ} {plan : Plan} {order : List Nat}
  {method : ProcedureId} (raw : plan.definer = .raw)
  (destination : shared.Destination world.store plan.target order method)

include raw destination

private theorem Destination.run_put (name : String) (value : Value) :
    (put meaning plan name (.ofValue value)).run world =
      (.ok (), { world with
        store := world.store.storeMember plan.target name (.ofValue value) }) :=
  run_put_of_plain meaning plan raw value (destination.plain name)

theorem brings_put_shared {incoming : List Nat} {woven : ProcedureId}
    (wove : shared.Woven world.store incoming woven) (known : order ⊆ incoming) :
    shared.Brings plan.target
      (put meaning plan shared.name (.ofValue (.procedure woven)) >>= fun _ => pure []) world
      order [incoming] := by
  refine ⟨_, incoming, woven, ?_, .of_storeMember _ _ _ _, .replaced known (.done _),
    destination.storeShared wove⟩
  rw [Action.run_bind_of_ok _ (destination.run_put meaning raw _ _)]
  rfl

private theorem brings_put_other {name : String} {value : Value} (different : name ≠ shared.name)
    (other : shared.others name = some (.ofValue value)) :
    shared.Brings plan.target
      (put meaning plan name (.ofValue value) >>= fun _ => pure []) world order [] := by
  refine ⟨_, order, method, ?_, .of_storeMember _ _ _ _, .done _,
    destination.storeOther different other⟩
  rw [Action.run_bind_of_ok _ (destination.run_put meaning raw _ _)]
  rfl

variable (index : Nat) (offers : shared.Offers world.store plan.target advised)
  (types : world.store.AllTypes (plan.sources.take (index + 1)))

include offers types

theorem brings_mixMethod_shared (layered : advised.order ≠ []) :
    shared.Brings plan.target
      (mixMethod meaning.step plan index advised.composite.prototype
        (chainOf advised.composite) shared.name []) world order [advised.order] := by
  have looked := Store.lookup_of_own (offers.owned layered)
  have current := destination.dataValue?_eq
  have hooked := offers.resolves.woven.hooked layered
  cases runs : installs world.store advised.composite.prototype (chainOf advised.composite)
      shared.name (world.store.dataValue? plan.target shared.name) with
  | true =>
      rcases run_installWeave meaning
        destination layered (fun root equal => (Option.some.inj equal).symm)
        offers.resolves.woven.advised with ⟨later, woven, ran, fills, final, _⟩
      refine ⟨later, _, woven, ?_, fills, .stacked (.done _), final⟩
      rw [run_mixMethod_of_installs meaning.step plan index _ [] looked rfl hooked runs]
      exact Action.run_bind_of_ok _ ran
  | false =>
      have overrides : world.store.chainHolds (chainOf advised.composite) shared.name
          (.procedure method) = true := by
        simpa [installs, looked, Value.asProcedure, hooked, current] using runs
      rcases Store.chainHolds_iff.mp overrides with ⟨table, member, holds⟩
      have known : order ⊆ advised.order := by
        intro trait inside
        refine (offers.entered table (FirstSeen.mem_ofList.mp member) method holds).2 trait ?_
        rw [destination.woven.weave, shared.mem_layers_weave]
        exact inside
      have implemented := offers.resolves.woven.onion.isRequired_eq_false
        (by simpa using layered)
      have copied := brings_put_shared meaning.step raw destination offers.resolves.woven known
      rw [Brings, run_mixMethod_of_silent meaning.step plan index _ [] types looked rfl runs,
        current, beq_self_eq_true, weighed_of_overrides implemented overrides]
      exact copied

theorem brings_mixMethod_other (plain : shared.OthersPlain world.store) {name : String}
    (different : name ≠ shared.name)
    (listed : name ∈ world.store.enumerableNames advised.composite.prototype) :
    shared.Brings plan.target
      (mixMethod meaning plan index advised.composite.prototype (chainOf advised.composite)
        name []) world order [] := by
  rcases Store.mem_enumerableNames_iff.mp listed with ⟨descriptor, resolved, enumerable⟩
  have other := (offers.resolves.others name different).symm.trans resolved
  rcases plain name different descriptor other enumerable with ⟨value, rfl, hookless⟩
  rcases Option.map_eq_some_iff.mp resolved with ⟨⟨owner, _⟩, looked, rfl⟩
  have put := brings_put_other meaning raw destination different other
  cases holds : (Descriptor.ofValue value).method? with
  | none =>
      rw [Brings, run_mixMethod_of_value meaning plan index _ [] looked holds]
      exact put
  | some incoming =>
      obtain rfl : value = .procedure incoming :=
        Option.some.inj (Descriptor.value?_of_method? holds)
      have hook := (hookless incoming rfl).2
      have silent : installs world.store advised.composite.prototype
          (chainOf advised.composite) name (world.store.dataValue? plan.target name) = false := by
        simp [installs, looked, Value.asProcedure, hook]
      have current : world.store.dataValue? plan.target name = some (.procedure incoming) := by
        rw [Store.dataValue?, destination.others name different, other]
        rfl
      rw [Brings, run_mixMethod_of_silent meaning plan index _ [] types looked holds silent,
        current, weighed, if_pos rfl]
      exact put

end MergingTypes

section Names

variable (meaning : Meaning σ) {plan : Plan} (raw : plan.definer = .raw) (index : Nat)

include raw

private theorem brings_others :
    ∀ (names : List String) {world : World σ} {order : List Nat} {method : ProcedureId},
      shared.Destination world.store plan.target order method →
      shared.Offers world.store plan.target advised →
      world.store.AllTypes (plan.sources.take (index + 1)) →
      shared.OthersPlain world.store →
      (∀ name ∈ names, name ≠ shared.name ∧
        name ∈ world.store.enumerableNames advised.composite.prototype) →
      shared.Brings plan.target
        (names.foldlM (fun held name =>
          mixMethod meaning plan index advised.composite.prototype (chainOf advised.composite)
            name held) []) world order []
  | [], world, order, method, destination, _, _, _, _ =>
      ⟨world.store, order, method, rfl, .refl _ _, .done order, destination⟩
  | name :: names, world, order, method, destination, offers, types, plain, listed => by
      rcases listed name (List.mem_cons_self ..) with ⟨different, first⟩
      rw [List.foldlM_cons]
      refine (brings_mixMethod_other meaning raw destination index offers types plain different
        first).bind fun later merged woven fills between => ?_
      refine brings_others names between (offers.later fills.toChangesOnly destination.rooted)
        (types.later fills.toChangesOnly) (plain.extends fills.extends_) fun other member => ?_
      rw [fills.enumerableNames_eq destination.rooted offers.houses.hasObject_prototype
        (offers.apart _ offers.houses.own)]
      exact listed other (List.mem_cons_of_mem _ member)

theorem brings_mixSource {world : World σ} {order : List Nat} {method : ProcedureId}
    (destination : shared.Destination world.store plan.target order method)
    (offers : shared.Offers world.store plan.target advised)
    (types : world.store.AllTypes (plan.sources.take (index + 1)))
    (plain : shared.OthersPlain world.store) (layered : advised.order ≠ []) :
    shared.Brings plan.target (mixSource meaning.step plan index advised.source []) world
      order [advised.order] := by
  have known := offers.houses.hasObject_prototype
  have apart := offers.apart _ offers.houses.own
  rcases List.append_of_mem
    (Store.mem_enumerableNames_of_own (offers.owned layered) rfl) with ⟨first, rest, split⟩
  have unique := world.store.nodup_enumerableNames advised.composite.prototype
  rw [split, List.nodup_append, List.nodup_cons] at unique
  have listed (name : String) (member : name ∈ first ++ shared.name :: rest) :
      name ∈ world.store.enumerableNames advised.composite.prototype := by
    rw [split]
    exact member
  have before (name : String) (member : name ∈ first) : name ≠ shared.name :=
    unique.2.2 name member shared.name (List.mem_cons_self ..)
  have after (name : String) (member : name ∈ rest) : name ≠ shared.name := fun equal =>
    unique.2.1.1 (equal ▸ member)
  rw [Brings, AdvisedType.source, run_mixSource_of_type meaning.step plan index []
    offers.houses.found, split, List.foldlM_append]
  refine (brings_others meaning.step raw index first destination offers types plain
    fun name member => ⟨before name member, listed name (by simp [member])⟩).bind ?_
  intro between merged woven fills destinationThen
  have offersThen := offers.later fills.toChangesOnly destination.rooted
  have typesThen := types.later fills.toChangesOnly
  rw [List.foldlM_cons]
  refine (brings_mixMethod_shared meaning raw destinationThen index offersThen typesThen
    layered).bind fun later last method fillsThen destinationNow => ?_
  have all := (fills.trans fillsThen).toChangesOnly
  refine brings_others meaning.step raw index rest destinationNow
    (offers.later all destination.rooted) (types.later all) (plain.extends all.extends_)
    fun name member => ⟨after name member, ?_⟩
  rw [all.enumerableNames_eq destination.rooted known apart]
  exact listed name (by simp [member])

theorem brings_mixSources :
    ∀ (rest : List AdvisedType) (index : Nat) {world : World σ} {order : List Nat}
      {method : ProcedureId},
      shared.Destination world.store plan.target order method →
      (∀ advised ∈ rest, shared.Offers world.store plan.target advised ∧ advised.order ≠ []) →
      world.store.AllTypes (plan.sources.take (index + rest.length)) →
      shared.OthersPlain world.store →
      shared.Brings plan.target
        (mixSources meaning.step plan index (rest.map AdvisedType.source) []) world order
        (rest.map AdvisedType.order)
  | [], _, world, order, method, destination, _, _, _ =>
      ⟨world.store, order, method, rfl, .refl _ _, .done order, destination⟩
  | first :: rest, index, world, order, method, destination, ready, types, plain => by
      rcases ready first (List.mem_cons_self ..) with ⟨offers, layered⟩
      rw [List.length_cons, Nat.add_comm rest.length, ← Nat.add_assoc] at types
      have early : world.store.AllTypes (plan.sources.take (index + 1)) := fun source member =>
        types source (List.take_subset_take_left _ (Nat.le_add_right ..) member)
      refine (brings_mixSource meaning raw index destination offers early plain layered).bind
        fun later merged woven fills between => ?_
      refine brings_mixSources rest (index + 1) between (fun advised member => ?_)
        (types.later fills.toChangesOnly) (plain.extends fills.extends_)
      rcases ready advised (List.mem_cons_of_mem _ member) with ⟨offersNext, layeredNext⟩
      exact ⟨offersNext.later fills.toChangesOnly destination.rooted, layeredNext⟩

end Names

end SharedMember

end TraitComposition
