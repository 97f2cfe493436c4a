import TraitComposition.Proofs.Composition.Creation
import TraitComposition.Proofs.Store.Assignment

/-!
What an instance takes over from an object that a constructor returned. Each own enumerable member
of that object is assigned where the instance resolves its name, and defined as it is where it does
not. Whatever the names before it did, a name is taken as it was at the start, because no step
touches what another name resolves to, nor the object that is copied from.
-/
namespace TraitComposition

namespace Store

variable {store : Store} {target returned : ObjectId} {name : String} {incoming : Descriptor}

/-! ### One member -/

def absorbed (store : Store) (target : ObjectId) (name : String)
    (incoming : Descriptor) : Descriptor :=
  if store.has target name then
    store.assigned target name (incoming.value?.getD .undefined)
  else
    incoming

structure Absorbable (store : Store) (target returned : ObjectId) (name : String) : Prop where
  data : ∀ incoming, store.ownDescriptor? returned name = some incoming → incoming.isData = true
  writable : ∀ resolved, store.descriptor? target name = some resolved →
    resolved.isWritable = true

private theorem absorbed_storeMember_of_ne {other : String} (rooted : store.Rooted)
    (known : store.hasObject target = true) (different : other ≠ name)
    (stored : Descriptor) :
    (store.storeMember target name stored).absorbed target other incoming =
      store.absorbed target other incoming := by
  have outside : ¬(other = name ∧ store.readsThrough target target name = true) :=
    fun both => different both.1
  rw [absorbed, absorbed, has, has, lookup_storeMember _ rooted known known, if_neg outside,
    assigned, assigned, ownDescriptor?_storeMember_other _ _ fun both => different both.2]

variable (target) in
theorem members_storeMember_absorbed
    (owned : store.ownDescriptor? returned name = some incoming) (data : incoming.isData = true) :
    (store.storeMember target name (store.absorbed target name incoming)).members returned =
      store.members returned := by
  by_cases same : returned = target
  · subst returned
    rcases Descriptor.isData_iff.mp data with ⟨value, valued⟩
    have known : store.hasObject target = true :=
      hasObject_of_descriptor? (descriptor?_of_own owned)
    rw [absorbed, if_pos (has_of_own owned), valued, Option.getD_some, assigned_of_owned owned,
      Descriptor.withValue_of_value? valued, members_storeMember_same _ known]
    exact MemberTable.insert_of_find? owned
  · exact members_updateMembers_other _ _ same

private theorem Absorbable.storeMember {other : String} (rooted : store.Rooted)
    (known : store.hasObject target = true)
    (owned : store.ownDescriptor? returned name = some incoming) (data : incoming.isData = true)
    (different : other ≠ name) (absorbable : store.Absorbable target returned other) :
    (store.storeMember target name (store.absorbed target name incoming)).Absorbable target
      returned other where
  data found same := by
    apply absorbable.data
    rwa [ownDescriptor?, members_storeMember_absorbed target owned data] at same
  writable resolved resolves := by
    apply absorbable.writable
    rwa [descriptor?, lookup_storeMember _ rooted known known,
      if_neg fun both => different both.1] at resolves

/-! ### Several members -/

structure Absorbs (target returned : ObjectId) (names : List String)
    (before after : Store) : Prop where
  confined : ∃ update, after = before.updateMembers target update
  source : after.members returned = before.members returned
  taken : ∀ name ∈ names, ∀ incoming, before.ownDescriptor? returned name = some incoming →
    after.ownDescriptor? target name = some (before.absorbed target name incoming)
  others : ∀ name ∉ names, after.ownDescriptor? target name = before.ownDescriptor? target name
  order : after.ownNames target =
    before.ownNames target ++ names.filter fun name => !before.hasOwn target name

private theorem Absorbs.nil (store : Store) (target returned : ObjectId) :
    Absorbs target returned [] store store where
  confined := ⟨fun _ => store.members target, (updateMembers_members store target).symm⟩
  source := rfl
  taken _ member := absurd member List.not_mem_nil
  others _ _ := rfl
  order := (List.append_nil _).symm

private theorem Absorbs.cons {names : List String} {after : Store} (rooted : store.Rooted)
    (known : store.hasObject target = true) (fresh : name ∉ names)
    (owned : store.ownDescriptor? returned name = some incoming) (data : incoming.isData = true)
    (rest : Absorbs target returned names
      (store.storeMember target name (store.absorbed target name incoming)) after) :
    Absorbs target returned (name :: names) store after := by
  have unchanged (other : String) (different : other ≠ name) :
      (store.storeMember target name (store.absorbed target name incoming)).ownDescriptor? target
        other = store.ownDescriptor? target other :=
    ownDescriptor?_storeMember_other _ _ fun both => different both.2
  have source := members_storeMember_absorbed target owned data
  constructor
  · rcases rest.confined with ⟨update, rfl⟩
    exact ⟨_, updateMembers_updateMembers _ _ _ _⟩
  · exact rest.source.trans source
  · intro other member found ownedToo
    rcases List.mem_cons.mp member with rfl | member
    · cases owned.symm.trans ownedToo
      rw [rest.others other fresh, ownDescriptor?_storeMember_same _ _ _ _ known]
    · have different : other ≠ name := fun equal => fresh (equal ▸ member)
      have taken := rest.taken other member found (by rwa [ownDescriptor?, source])
      rwa [absorbed_storeMember_of_ne rooted known different] at taken
  · intro other outside
    rw [List.mem_cons, not_or] at outside
    rw [rest.others other outside.2, unchanged other outside.1]
  · have later : (names.filter fun other => !(store.storeMember target name
        (store.absorbed target name incoming)).hasOwn target other) =
        names.filter fun other => !store.hasOwn target other := by
      apply List.filter_congr
      intro other member
      have different : other ≠ name := fun equal => fresh (equal ▸ member)
      rw [hasOwn_eq_isSome, hasOwn_eq_isSome, unchanged other different]
    rw [rest.order, later, List.filter_cons, hasOwn_eq_isSome]
    cases already : store.ownDescriptor? target name with
    | some existing => simp [ownNames_storeMember_of_owned _ known already]
    | none => simp [ownNames_storeMember_of_not_owned _ known already]

end Store

/-! ### Absorbing -/

namespace Composite

variable {σ : Type} (meaning : Meaning σ) {target returned : ObjectId}

private theorem run_absorbMember {world : World σ} {name : String} {incoming : Descriptor}
    (owned : world.store.ownDescriptor? returned name = some incoming)
    (absorbable : world.store.Absorbable target returned name) :
    (absorbMember meaning .raw target returned name).run world =
      (.ok (), { world with
        store := world.store.storeMember target name
          (world.store.absorbed target name incoming) }) := by
  rcases Descriptor.isData_iff.mp (absorbable.data incoming owned) with ⟨value, valued⟩
  rw [absorbMember, Action.run_getStore_bind, Store.absorbed]
  cases resolves : world.store.has target name with
  | true =>
      have reads : world.store.dataValue? returned name = some value := by
        rw [Store.dataValue?, Store.descriptor?_of_own owned, Option.bind_some, valued]
      rw [if_pos rfl, if_pos rfl, valued,
        Action.run_bind_of_ok _ (Member.run_read_of_dataValue? meaning reads)]
      exact Member.run_assign_of_writable meaning value absorbable.writable
  | false =>
      rw [if_neg Bool.false_ne_true, if_neg Bool.false_ne_true, owned]
      exact Member.run_define incoming (Store.ownDescriptor?_of_has resolves)

theorem exists_run_absorbMembers {names : List String} (nodup : names.Nodup) (world : World σ)
    (rooted : world.store.Rooted) (known : world.store.hasObject target = true)
    (owned : ∀ name ∈ names, ∃ incoming,
      world.store.ownDescriptor? returned name = some incoming)
    (absorbable : ∀ name ∈ names, world.store.Absorbable target returned name) :
    ∃ after, (names.forM (absorbMember meaning .raw target returned)).run world =
        (.ok (), { world with store := after }) ∧
      Store.Absorbs target returned names world.store after := by
  induction names generalizing world with
  | nil => exact ⟨world.store, rfl, .nil world.store target returned⟩
  | cons name names induction =>
      rw [List.nodup_cons] at nodup
      rcases owned name List.mem_cons_self with ⟨incoming, ownedHere⟩
      have here := absorbable name List.mem_cons_self
      have data := here.data incoming ownedHere
      have ran := run_absorbMember meaning ownedHere here
      let next := world.store.storeMember target name (world.store.absorbed target name incoming)
      have source : next.members returned = world.store.members returned :=
        Store.members_storeMember_absorbed target ownedHere data
      have step := induction nodup.2 { world with store := next }
        (rooted.of_parent_eq (Store.parent_updateMembers _ _ _))
        ((Store.hasObject_updateMembers _ _ _ _).trans known)
        (fun other member => by
          rw [Store.ownDescriptor?, source]
          exact owned other (List.mem_cons_of_mem _ member))
        (fun other member => by
          have different : other ≠ name := fun equal => nodup.1 (equal ▸ member)
          exact (absorbable other (List.mem_cons_of_mem _ member)).storeMember rooted known
            ownedHere data different)
      rcases step with ⟨after, ranRest, rest⟩
      refine ⟨after, ?_, rest.cons rooted known nodup.1 ownedHere data⟩
      rw [List.forM, Action.run_bind_of_ok _ ran]
      exact ranRest

end Composite

structure Store.HasAbsorbed (target returned : ObjectId) (before after : Store) : Prop where
  /-- Nothing but the members of the instance is written, not those of its prototype either. -/
  confined : ∃ update, after = before.updateMembers target update
  /-- The object that is copied from stays, even one that the instance delegates to. -/
  source : after.object returned = before.object returned
  /-- Every enumerable name is owned, with the value that the object has under it. -/
  valued : ∀ name incoming value, before.ownDescriptor? returned name = some incoming →
    incoming.enumerable = true → incoming.value? = some value →
      ∃ stored, after.ownDescriptor? target name = some stored ∧ stored.value? = some value
  /-- A name that the instance did not resolve comes with its flags. -/
  introduced : ∀ name incoming, before.ownDescriptor? returned name = some incoming →
    incoming.enumerable = true → before.has target name = false →
      after.ownDescriptor? target name = some incoming
  others : ∀ name ∉ before.keys returned,
    after.ownDescriptor? target name = before.ownDescriptor? target name
  /-- New names come last, in the order in which the object has them. -/
  order : after.ownNames target = before.ownNames target ++
    (before.keys returned).filter fun name => !before.hasOwn target name

private theorem Store.Absorbs.hasAbsorbed {target returned : ObjectId} {before after : Store}
    (absorbs : Absorbs target returned (before.keys returned) before after)
    (absorbable : ∀ name ∈ before.keys returned, before.Absorbable target returned name) :
    HasAbsorbed target returned before after where
  confined := absorbs.confined
  source := by
    rcases absorbs.confined with ⟨update, rfl⟩
    have parent := parent_updateMembers before target update returned
    have members := absorbs.source
    unfold Store.parent at parent
    unfold Store.members at members
    rcases new : (before.updateMembers target update).object returned with ⟨_, _⟩
    rcases old : before.object returned with ⟨_, _⟩
    rw [new, old] at parent members
    cases parent
    cases members
    rfl
  valued name incoming value owned enumerable valued := by
    have listed : name ∈ before.keys returned := MemberTable.mem_keys_iff.mpr ⟨_, owned, enumerable⟩
    refine ⟨_, absorbs.taken name listed incoming owned, ?_⟩
    unfold absorbed
    split
    · rw [valued, Option.getD_some]
      exact value?_assigned (fun existing ownedBefore =>
        (absorbable name listed).writable existing (descriptor?_of_own ownedBefore)) value
    · exact valued
  introduced name incoming owned enumerable unresolved := by
    have listed : name ∈ before.keys returned := MemberTable.mem_keys_iff.mpr ⟨_, owned, enumerable⟩
    rw [absorbs.taken name listed incoming owned, absorbed, unresolved]
    rfl
  others := absorbs.others
  order := absorbs.order

namespace Composite

/-- An instance without a definer absorbs an object of values as it is. -/
theorem absorb_copies {σ : Type} (meaning : Meaning σ) {target returned : ObjectId}
    {world : World σ} (rooted : world.store.Rooted)
    (known : world.store.hasObject target = true)
    (undefining : world.store.has target Definer.memberName = false)
    (data : ∀ name ∈ world.store.keys returned, ∀ incoming,
      world.store.ownDescriptor? returned name = some incoming → incoming.isData = true)
    (writable : ∀ name ∈ world.store.keys returned, ∀ resolved,
      world.store.descriptor? target name = some resolved → resolved.isWritable = true) :
    ∃ after, (absorb meaning target returned).run world =
        (.ok (), { world with store := after }) ∧
      Store.HasAbsorbed target returned world.store after := by
  have absorbable (name : String) (listed : name ∈ world.store.keys returned) :
      world.store.Absorbable target returned name :=
    ⟨data name listed, writable name listed⟩
  have owned (name : String) (listed : name ∈ world.store.keys returned) :
      ∃ incoming, world.store.ownDescriptor? returned name = some incoming := by
    rcases MemberTable.mem_keys_iff.mp listed with ⟨incoming, owned, _⟩
    exact ⟨incoming, owned⟩
  have nodup : (world.store.keys returned).Nodup :=
    (MemberTable.nodup_names _).sublist List.filter_sublist
  rcases exists_run_absorbMembers meaning nodup world rooted known owned absorbable
    with ⟨after, ran, absorbs⟩
  refine ⟨after, ?_, absorbs.hasAbsorbed absorbable⟩
  rw [absorb, Action.run_bind_of_ok _ (Definer.run_ofValue_of_missing meaning undefining),
    Action.run_getStore_bind]
  exact ran

def delegating : World Unit where
  store := ((((Store.initial.createObject none).2.insert ⟨0⟩ "kind" (.text "base")).insert ⟨0⟩
    "size" (.text "large")).createObject (some ⟨0⟩)).2.insert ⟨1⟩ "size" (.text "small")
  state := ()

theorem absorb_ancestor :
    ∃ after, (absorb .exhausted ⟨1⟩ ⟨0⟩).run delegating =
        (.ok (), { delegating with store := after }) ∧
      after.ownNames ⟨1⟩ = ["size", "kind"] ∧
      (∃ stored, after.ownDescriptor? ⟨1⟩ "size" = some stored ∧
        stored.value? = some (.text "large")) ∧
      after.object ⟨0⟩ = delegating.store.object ⟨0⟩ := by
  have data : ∀ name ∈ delegating.store.keys ⟨0⟩,
      (delegating.store.ownDescriptor? ⟨0⟩ name).all Descriptor.isData = true := by
    decide
  have writable : ∀ name ∈ delegating.store.keys ⟨0⟩,
      (delegating.store.descriptor? ⟨1⟩ name).all Descriptor.isWritable = true := by
    decide
  have rooted : delegating.store.Rooted := Store.rooted_iff.mpr (by decide)
  have known : delegating.store.hasObject ⟨1⟩ = true := by decide
  rcases absorb_copies .exhausted rooted known (by decide)
    (fun name listed => (Option.all_eq_true _ _).mp (data name listed))
    (fun name listed => (Option.all_eq_true _ _).mp (writable name listed))
    with ⟨after, ran, absorbed⟩
  refine ⟨after, ran, absorbed.order.trans (by decide), ?_, absorbed.source⟩
  exact absorbed.valued "size" (.ofValue (.text "large")) (.text "large") rfl rfl rfl

end Composite

end TraitComposition
