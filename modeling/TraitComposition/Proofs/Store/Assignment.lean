import TraitComposition.Machine
import TraitComposition.Proofs.Action.Running
import TraitComposition.Proofs.Store.Regions

/-!
Members without accessors. Reading one changes nothing. What is assigned ends up on the receiver
itself, wherever the name was resolved before, and nothing else is written; what other objects
resolve changes only where they read the name through the receiver.
-/
namespace TraitComposition

namespace Descriptor

private theorem shape_withValue {descriptor : Descriptor} (writable : descriptor.isWritable = true)
    (value : Value) :
    descriptor.withValue value = { descriptor with shape := .data value true } := by
  rcases isWritable_iff.mp writable with ⟨old, shape⟩
  rw [withValue, shape]

private theorem value?_withValue {descriptor : Descriptor} (writable : descriptor.isWritable = true)
    (value : Value) : (descriptor.withValue value).value? = some value := by
  rw [shape_withValue writable, value?]

end Descriptor

namespace Store

variable {store : Store} {target : ObjectId} {name : String}

/-! ### One member stored -/

section Stored

variable (descriptor : Descriptor)

theorem members_storeMember_same (known : store.hasObject target = true) :
    (store.storeMember target name descriptor).members target =
      (store.members target).insert name descriptor :=
  members_updateMembers_same store target _ known

theorem ownNames_storeMember_of_owned {existing : Descriptor}
    (known : store.hasObject target = true)
    (owned : store.ownDescriptor? target name = some existing) :
    (store.storeMember target name descriptor).ownNames target = store.ownNames target := by
  rw [ownNames, members_storeMember_same descriptor known]
  exact MemberTable.names_insert_of_mem _ (MemberTable.mem_names_iff.mpr ⟨existing, owned⟩)

theorem ownNames_storeMember_of_not_owned (known : store.hasObject target = true)
    (missing : store.ownDescriptor? target name = none) :
    (store.storeMember target name descriptor).ownNames target =
      store.ownNames target ++ [name] := by
  rw [ownNames, members_storeMember_same descriptor known]
  apply MemberTable.names_insert_of_not_mem
  rw [MemberTable.mem_names_iff]
  rintro ⟨existing, owned⟩
  cases missing.symm.trans owned

/-- Where an object reads the name through the target it finds what is stored, and everything else
is found as before. -/
theorem lookup_storeMember (rooted : store.Rooted) (known : store.hasObject target = true)
    {object : ObjectId} (knownObject : store.hasObject object = true) (other : String) :
    (store.storeMember target name descriptor).lookup object other =
      if other = name ∧ store.readsThrough object target name = true then
        some (target, descriptor)
      else
        store.lookup object other := by
  have changes := ChangesWithin.of_storeMember store target name descriptor
  have within : ChangesWithin (.object target) store (store.storeMember target name descriptor) :=
    changes.mono fun _ _ _ member => member.1
  by_cases same : other = name
  · subst other
    cases through : store.readsThrough object target name with
    | true =>
        rw [if_pos ⟨rfl, rfl⟩, lookup_of_readsThrough rooted knownObject within through]
        exact lookup_of_own (ownDescriptor?_storeMember_same store target name descriptor known)
    | false =>
        rw [if_neg (by simp)]
        exact lookup_of_not_readsThrough rooted knownObject within through
  · rw [if_neg fun both => same both.1]
    exact changes.lookup_eq rooted knownObject fun _ _ member => same member.2

end Stored

/-! ### One value assigned -/

def assigned (store : Store) (target : ObjectId) (name : String) (value : Value) : Descriptor :=
  match store.ownDescriptor? target name with
  | some existing => existing.withValue value
  | none => .ofValue value

theorem assigned_of_owned {existing : Descriptor}
    (owned : store.ownDescriptor? target name = some existing) (value : Value) :
    store.assigned target name value = existing.withValue value := by
  rw [assigned, owned]

private theorem assigned_of_not_owned (missing : store.ownDescriptor? target name = none)
    (value : Value) : store.assigned target name value = .ofValue value := by
  rw [assigned, missing]

theorem value?_assigned (writable : ∀ existing,
    store.ownDescriptor? target name = some existing → existing.isWritable = true)
    (value : Value) : (store.assigned target name value).value? = some value := by
  cases owned : store.ownDescriptor? target name with
  | none =>
      rw [assigned_of_not_owned owned]
      rfl
  | some existing =>
      rw [assigned_of_owned owned]
      exact Descriptor.value?_withValue (writable existing owned) value

structure Assigned (target : ObjectId) (name : String) (value : Value)
    (before after : Store) : Prop where
  /-- Nothing but the members of the receiver is written. -/
  confined : ∃ update, after = before.updateMembers target update
  /-- An own member takes the value in its place and keeps its flags. -/
  kept : ∀ existing, before.ownDescriptor? target name = some existing →
    after.ownDescriptor? target name = some { existing with shape := .data value true } ∧
      after.ownNames target = before.ownNames target
  /-- A name that is not owned is appended, with every flag set. -/
  appended : before.ownDescriptor? target name = none →
    after.ownDescriptor? target name = some ⟨.data value true, true, true⟩ ∧
      after.ownNames target = before.ownNames target ++ [name]
  others : ∀ object other, ¬(object = target ∧ other = name) →
    after.ownDescriptor? object other = before.ownDescriptor? object other
  /-- Whoever read the name through the receiver, or found it nowhere nearer, reads the value. -/
  through : ∀ object, before.hasObject object = true →
    before.readsThrough object target name = true →
      ∃ descriptor, after.lookup object name = some (target, descriptor) ∧
        descriptor.value? = some value
  /-- Every other resolution stays. -/
  elsewhere : ∀ object, before.hasObject object = true → ∀ other,
    ¬(other = name ∧ before.readsThrough object target name = true) →
      after.lookup object other = before.lookup object other

private theorem Assigned.of_storeMember (rooted : store.Rooted)
    (known : store.hasObject target = true)
    (writable : ∀ existing, store.ownDescriptor? target name = some existing →
      existing.isWritable = true) (value : Value) :
    Assigned target name value store
      (store.storeMember target name (store.assigned target name value)) where
  confined := ⟨_, rfl⟩
  kept existing owned := by
    constructor
    · rw [ownDescriptor?_storeMember_same _ _ _ _ known, assigned_of_owned owned]
      exact congrArg some (Descriptor.shape_withValue (writable existing owned) value)
    · exact ownNames_storeMember_of_owned _ known owned
  appended missing := by
    constructor
    · rw [ownDescriptor?_storeMember_same _ _ _ _ known, assigned_of_not_owned missing]
      rfl
    · exact ownNames_storeMember_of_not_owned _ known missing
  others object other outside := ownDescriptor?_storeMember_other store _ outside
  through object knownObject reads := by
    refine ⟨store.assigned target name value, ?_, value?_assigned writable value⟩
    rw [lookup_storeMember _ rooted known knownObject, if_pos ⟨rfl, reads⟩]
  elsewhere object knownObject other outside := by
    rw [lookup_storeMember _ rooted known knownObject, if_neg outside]

end Store

namespace Member

variable {σ : Type} (meaning : Meaning σ) {world : World σ} {object : ObjectId} {name : String}

/-! ### Defining -/

theorem run_define_of_accepts {descriptor : Descriptor}
    (accepted : world.store.accepts object name descriptor = true) :
    (define object name descriptor).run world =
      (.ok (), { world with store := world.store.storeMember object name descriptor }) := by
  rw [define, Action.run_getStore_bind, if_pos accepted]
  rfl

theorem run_define_of_not_accepts {descriptor : Descriptor}
    (refused : world.store.accepts object name descriptor = false) :
    (define object name descriptor).run world = (.error (.notConfigurable name), world) := by
  rw [define, Action.run_getStore_bind, refused]
  rfl

/-! ### Reading and assigning -/

theorem run_read_of_dataValue? {value : Value}
    (resolved : world.store.dataValue? object name = some value) :
    (read meaning object name).run world = (.ok value, world) := by
  rcases Option.bind_eq_some_iff.mp resolved with
    ⟨⟨shape, enumerable, configurable⟩, found, holds⟩
  rw [read, Action.run_getStore_bind, found, Option.map_some]
  cases shape with
  | data stored writable =>
      cases holds
      rfl
  | accessor => cases holds

theorem reached_read (world : World σ) (object : ObjectId) (name : String) :
    (∃ getter, (world.store.descriptor? object name).bind Descriptor.getter? = some getter ∧
      ((read meaning object name).run world).2 =
        ((meaning.call getter (.object object) []).run world).2) ∨
    ((read meaning object name).run world).2 = world := by
  rw [read, Action.run_getStore_bind]
  rcases world.store.descriptor? object name with
    _ | ⟨⟨value, writable⟩ | ⟨_ | getter, setter⟩, enumerable, configurable⟩
  · exact .inr rfl
  · exact .inr rfl
  · exact .inr rfl
  · exact .inl ⟨getter, rfl, rfl⟩

/-- Assigning runs the setter that is resolved, or stores a member, or does nothing. -/
theorem reached_assign (world : World σ) (object : ObjectId) (name : String) (value : Value) :
    (∃ setter, (world.store.descriptor? object name).bind Descriptor.setter? = some setter ∧
      ((assign meaning object name value).run world).2 =
        ((meaning.call setter (.object object) [value]).run world).2) ∨
    ((assign meaning object name value).run world).2 = world ∨
    ∃ descriptor, ((assign meaning object name value).run world).2 =
      { world with store := world.store.storeMember object name descriptor } := by
  rw [assign, Action.run_getStore_bind, Store.descriptor?]
  rcases world.store.lookup object name with
    _ | ⟨owner, ⟨stored, _ | _⟩ | ⟨getter, _ | setter⟩, enumerable, configurable⟩
  · exact .inr (.inr ⟨_, rfl⟩)
  · exact .inr (.inl rfl)
  · dsimp only
    split <;> exact .inr (.inr ⟨_, rfl⟩)
  · exact .inr (.inl rfl)
  · exact .inl ⟨setter, rfl, Action.reached_bind_pure ..⟩

/-- Assigning to an own member runs its setter, or stores the value, or does nothing. -/
theorem reached_assign_of_owned {existing : Descriptor}
    (owned : world.store.ownDescriptor? object name = some existing) (value : Value) :
    (∃ setter, existing.setter? = some setter ∧
      ((assign meaning object name value).run world).2 =
        ((meaning.call setter (.object object) [value]).run world).2) ∨
    ((assign meaning object name value).run world).2 = world ∨
    ((assign meaning object name value).run world).2 =
      { world with store := world.store.storeMember object name (existing.withValue value) } := by
  rw [assign, Action.run_getStore_bind, Store.lookup_of_own owned]
  rcases existing with ⟨⟨stored, _ | _⟩ | ⟨getter, _ | setter⟩, enumerable, configurable⟩
  · exact .inr (.inl rfl)
  · simp only [if_true]
    exact .inr (.inr rfl)
  · exact .inr (.inl rfl)
  · exact .inl ⟨setter, rfl, Action.reached_bind_pure ..⟩

theorem run_assign_of_writable (value : Value)
    (writable : ∀ descriptor, world.store.descriptor? object name = some descriptor →
      descriptor.isWritable = true) :
    (assign meaning object name value).run world =
      (.ok (), { world with
        store := world.store.storeMember object name
          (world.store.assigned object name value) }) := by
  rw [assign, Action.run_getStore_bind]
  cases found : world.store.lookup object name with
  | none =>
      rw [Store.assigned_of_not_owned (Store.ownDescriptor?_of_missing found)]
      rfl
  | some resolved =>
      rcases resolved with ⟨owner, descriptor⟩
      have resolves : world.store.descriptor? object name = some descriptor := by
        rw [Store.descriptor?, found, Option.map_some]
      rcases Descriptor.isWritable_iff.mp (writable descriptor resolves) with ⟨old, shape⟩
      simp only [shape]
      by_cases own : owner = object
      · subst owner
        rw [if_pos rfl, Store.assigned_of_owned (Store.ownDescriptor?_of_lookup found).2]
        rfl
      · rw [if_neg own, Store.assigned_of_not_owned (Store.ownDescriptor?_of_farther found own)]
        rfl

theorem run_assign_of_setterless {world : World σ} {object : ObjectId} {name : String}
    (setterless : (world.store.descriptor? object name).bind Descriptor.setter? = none)
    (first second : Meaning σ) (value : Value) :
    (assign first object name value).run world = (assign second object name value).run world := by
  rw [assign, assign, Action.run_getStore_bind, Action.run_getStore_bind]
  cases found : world.store.lookup object name with
  | none => rfl
  | some resolved =>
      rcases resolved with
        ⟨owner, ⟨⟨old, _ | _⟩ | ⟨getter, _ | setter⟩, enumerable, configurable⟩⟩
      · rfl
      · rfl
      · rfl
      · rw [Store.descriptor?, found] at setterless
        cases setterless

theorem run_assign_of_refused (value : Value) {descriptor : Descriptor}
    (resolves : world.store.descriptor? object name = some descriptor)
    (locked : descriptor.isWritable = false) (setterless : descriptor.setter? = none) :
    (assign meaning object name value).run world = (.error (.readOnly name), world) := by
  rcases Option.map_eq_some_iff.mp resolves with ⟨⟨owner, found⟩, looked, rfl⟩
  rw [assign, Action.run_getStore_bind, looked]
  rcases found with ⟨⟨old, _ | _⟩ | ⟨getter, _ | setter⟩, enumerable, configurable⟩
  · rfl
  · cases locked
  · rfl
  · cases setterless

theorem run_assign_of_readOnly (value : Value) {descriptor : Descriptor}
    (resolves : world.store.descriptor? object name = some descriptor)
    (data : descriptor.isData = true) (locked : descriptor.isWritable = false) :
    (assign meaning object name value).run world = (.error (.readOnly name), world) := by
  refine run_assign_of_refused meaning value resolves locked ?_
  rcases Descriptor.isData_iff.mp data with ⟨old, holds⟩
  rcases descriptor with ⟨_ | _, enumerable, configurable⟩
  · rfl
  · cases holds

/-- Where no accessor is resolved, an assignment writes the receiver, or refuses and leaves
everything as it is. -/
theorem assign_writes_receiver (rooted : world.store.Rooted)
    (known : world.store.hasObject object = true)
    (plain : ∀ descriptor, world.store.descriptor? object name = some descriptor →
      descriptor.isAccessor = false) (value : Value) :
    ((∃ later, (assign meaning object name value).run world = (.ok (), later)) ↔
      ∀ descriptor, world.store.descriptor? object name = some descriptor →
        descriptor.isWritable = true) ∧
    (∀ fault later, (assign meaning object name value).run world = (.error fault, later) →
      fault = .readOnly name ∧ later = world) ∧
    ∀ later, (assign meaning object name value).run world = (.ok (), later) →
      later = { world with store := later.store } ∧
        Store.Assigned object name value world.store later.store := by
  by_cases writable : ∀ descriptor, world.store.descriptor? object name = some descriptor →
    descriptor.isWritable = true
  · have ran := run_assign_of_writable meaning value writable
    have own (existing : Descriptor)
        (owned : world.store.ownDescriptor? object name = some existing) :
        existing.isWritable = true :=
      writable existing (Store.descriptor?_of_own owned)
    refine ⟨⟨fun _ => writable, fun _ => ⟨_, ran⟩⟩, fun fault later failed => ?_,
      fun later succeeded => ?_⟩
    · cases ran.symm.trans failed
    · cases ran.symm.trans succeeded
      exact ⟨rfl, .of_storeMember rooted known own value⟩
  · rcases Classical.not_forall.mp writable with ⟨descriptor, refused⟩
    rcases Classical.not_imp.mp refused with ⟨resolves, locked⟩
    have locked := Bool.eq_false_iff.mpr locked
    have data : descriptor.isData = true := by
      have accessor := plain descriptor resolves
      rwa [Descriptor.isAccessor_eq_not_isData, Bool.not_eq_false'] at accessor
    have ran := run_assign_of_readOnly meaning value resolves data locked
    refine ⟨⟨?_, fun writable => ?_⟩, fun fault later failed => ?_, fun later succeeded => ?_⟩
    · rintro ⟨later, succeeded⟩
      cases ran.symm.trans succeeded
    · cases locked.symm.trans (writable descriptor resolves)
    · cases ran.symm.trans failed
      exact ⟨rfl, rfl⟩
    · cases ran.symm.trans succeeded

def threeLevels : World Unit where
  store := ((((Store.initial.createObject none).2.createObject (some ⟨0⟩)).2.createObject
    (some ⟨1⟩)).2.insert ⟨0⟩ "size" (.text "old"))
  state := ()

/-- Of three objects, the one in the middle hides the name from the one below, and not from the one
above. -/
theorem assign_hides_inherited :
    ∃ later, (assign .exhausted ⟨1⟩ "size" (.text "new")).run threeLevels = (.ok (), later) ∧
      later.store.ownNames ⟨1⟩ = ["size"] ∧
      (∃ descriptor, later.store.lookup ⟨2⟩ "size" = some (⟨1⟩, descriptor) ∧
        descriptor.value? = some (.text "new")) ∧
      later.store.lookup ⟨0⟩ "size" = threeLevels.store.lookup ⟨0⟩ "size" := by
  have inherited : threeLevels.store.descriptor? ⟨1⟩ "size" = some (.ofValue (.text "old")) := by
    rfl
  have writable (descriptor : Descriptor)
      (resolves : threeLevels.store.descriptor? ⟨1⟩ "size" = some descriptor) :
      descriptor = .ofValue (.text "old") :=
    (Option.some.inj (inherited.symm.trans resolves)).symm
  have rooted : threeLevels.store.Rooted := Store.rooted_iff.mpr (by decide)
  have known : threeLevels.store.hasObject ⟨1⟩ = true := by decide
  rcases assign_writes_receiver .exhausted rooted known
    (fun descriptor resolves => writable descriptor resolves ▸ rfl) (.text "new")
    with ⟨succeeds, _, leaves⟩
  rcases succeeds.mpr fun descriptor resolves => writable descriptor resolves ▸ rfl
    with ⟨later, ran⟩
  rcases leaves later ran with ⟨_, assigned⟩
  refine ⟨later, ran, (assigned.appended rfl).2, ?_, ?_⟩
  · exact assigned.through ⟨2⟩ (by decide) (by decide)
  · exact assigned.elsewhere ⟨0⟩ (by decide) "size" (by decide)

end Member

end TraitComposition
