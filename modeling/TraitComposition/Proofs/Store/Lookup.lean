import TraitComposition.Proofs.Store.Evolution

/-!
Looking members up. A store is rooted if every object delegates to an older one, which
every store that evolved from the initial one is; then the ancestry of an object is
the object followed by the ancestry of its parent, and a name that the object does not
own resolves to what its parent resolves.
-/
namespace TraitComposition.Store

/-! ### Levels -/

theorem ancestry_eq_cons (store : Store) (object : ObjectId) :
    store.ancestry object = object :: store.ancestors object := rfl

theorem ancestry_of_parent_eq {before after : Store}
    (same : ∀ object, after.parent object = before.parent object) (object : ObjectId) :
    after.ancestry object = before.ancestry object := by
  rw [ancestry, ancestry]
  generalize object.index + 1 = limit
  induction limit generalizing object with
  | zero => rfl
  | succ limit induction =>
      rw [ancestryWithin, ancestryWithin, same object]
      cases before.parent object with
      | none => rfl
      | some parent => exact congrArg (object :: ·) (induction parent)

theorem ownDescriptor?_of_lookup {store : Store} {object owner : ObjectId} {name : String}
    {descriptor : Descriptor} (found : store.lookup object name = some (owner, descriptor)) :
    owner ∈ store.ancestry object ∧ store.ownDescriptor? owner name = some descriptor := by
  rcases List.exists_of_findSome?_eq_some found with ⟨level, member, owned⟩
  rcases Option.map_eq_some_iff.mp owned with ⟨known, ownedKnown, equal⟩
  cases equal
  exact ⟨member, ownedKnown⟩

theorem lookup_eq_some_iff {store : Store} {object level : ObjectId} {name : String}
    {descriptor : Descriptor} :
    store.lookup object name = some (level, descriptor) ↔
      ∃ nearer farther, store.ancestry object = nearer ++ level :: farther ∧
        store.ownDescriptor? level name = some descriptor ∧
        ∀ other ∈ nearer, store.ownDescriptor? other name = none := by
  rw [lookup, List.findSome?_eq_some_iff]
  apply exists_congr
  intro nearer
  constructor
  · rintro ⟨found, farther, levels, owned, missing⟩
    rcases Option.map_eq_some_iff.mp owned with ⟨_, ownedThere, equal⟩
    cases equal
    exact ⟨farther, levels, ownedThere, fun other member =>
      Option.map_eq_none_iff.mp (missing other member)⟩
  · rintro ⟨farther, levels, owned, missing⟩
    exact ⟨level, farther, levels, by rw [owned, Option.map_some], fun other member =>
      Option.map_eq_none_iff.mpr (missing other member)⟩

theorem lookup_of_own {store : Store} {object : ObjectId} {name : String}
    {descriptor : Descriptor} (owned : store.ownDescriptor? object name = some descriptor) :
    store.lookup object name = some (object, descriptor) := by
  rw [lookup, ancestry_eq_cons, List.findSome?_cons, owned]
  rfl

theorem ownDescriptor?_of_missing {store : Store} {object : ObjectId} {name : String}
    (missing : store.lookup object name = none) : store.ownDescriptor? object name = none := by
  rw [Option.eq_none_iff_forall_ne_some]
  intro descriptor owned
  rw [lookup_of_own owned] at missing
  cases missing

theorem ownDescriptor?_of_farther {store : Store} {object owner : ObjectId} {name : String}
    {descriptor : Descriptor} (found : store.lookup object name = some (owner, descriptor))
    (farther : owner ≠ object) : store.ownDescriptor? object name = none := by
  rw [Option.eq_none_iff_forall_ne_some]
  intro nearer owned
  rw [lookup_of_own owned] at found
  cases found
  exact farther rfl

theorem has_eq_isSome (store : Store) (object : ObjectId) (name : String) :
    store.has object name = (store.descriptor? object name).isSome :=
  Option.isSome_map.symm

theorem has_of_descriptor? {store : Store} {object : ObjectId} {name : String}
    {descriptor : Descriptor} (resolved : store.descriptor? object name = some descriptor) :
    store.has object name = true := by
  rw [has_eq_isSome, resolved]
  rfl

theorem has_of_own {store : Store} {object : ObjectId} {name : String} {descriptor : Descriptor}
    (owned : store.ownDescriptor? object name = some descriptor) :
    store.has object name = true := by
  rw [has, lookup_of_own owned]
  rfl

theorem ownDescriptor?_of_has {store : Store} {object : ObjectId} {name : String}
    (missing : store.has object name = false) : store.ownDescriptor? object name = none := by
  cases owned : store.ownDescriptor? object name with
  | none => rfl
  | some descriptor =>
      rw [has_of_own owned] at missing
      cases missing

theorem descriptor?_of_same {store : Store} {object : ObjectId} {name : String}
    {method : ProcedureId}
    (same : (store.descriptor? object name).any (·.same (.ofValue (.procedure method))) = true) :
    store.descriptor? object name = some (.ofValue (.procedure method)) := by
  rcases (Option.any_eq_true _ _).mp same with ⟨descriptor, found, equal⟩
  rw [found, Descriptor.eq_of_same_method equal]

theorem accepts_of_not_owned {store : Store} {object : ObjectId} {name : String}
    (descriptor : Descriptor) (missing : store.ownDescriptor? object name = none) :
    store.accepts object name descriptor = true := by
  rw [accepts, missing]

theorem hasOwn_eq_isSome (store : Store) (object : ObjectId) (name : String) :
    store.hasOwn object name = (store.ownDescriptor? object name).isSome := rfl

/-! ### Rooted stores

A store is rooted if every object delegates to an older one, so that no walk comes back to where
it started. -/

def Rooted (store : Store) : Prop :=
  ∀ object parent, store.parent object = some parent → parent.index < object.index

theorem rooted_iff {store : Store} :
    store.Rooted ↔ ∀ index < store.objects.size,
      (store.parent ⟨index⟩).all (fun parent => parent.index < index) = true := by
  constructor
  · intro rooted index _
    exact (Option.all_eq_true _ _).mpr fun parent delegates =>
      decide_eq_true (rooted ⟨index⟩ parent delegates)
  · intro older object parent delegates
    have inside := hasObject_iff.mp (hasObject_of_parent delegates)
    have all := (Option.all_eq_true _ _).mp (older object.index inside)
    exact of_decide_eq_true (all parent delegates)

instance (store : Store) : Decidable store.Rooted :=
  decidable_of_iff' _ rooted_iff

private theorem rooted_initial : Store.initial.Rooted := by
  intro object parent delegates
  cases delegates

theorem Rooted.createObject {store : Store} (rooted : store.Rooted)
    (parent : Option ObjectId) : (store.createObject parent).2.Rooted := by
  intro object ancestor delegates
  by_cases known : store.hasObject object = true
  · rw [Store.parent, object_createObject_of_hasObject parent known] at delegates
    exact rooted object ancestor delegates
  · have inside := hasObject_iff.mp (hasObject_of_parent delegates)
    rw [objects_size_createObject] at inside
    have beyond : ¬object.index < store.objects.size := fun less => known (hasObject_iff.mpr less)
    obtain rfl : object = ⟨store.objects.size⟩ := by
      cases object
      congr 1
      simp only at inside beyond
      omega
    rw [Store.parent, object_createObject_self, Option.filter_eq_some_iff] at delegates
    exact hasObject_iff.mp delegates.2

theorem Rooted.of_parent_eq {before after : Store} (rooted : before.Rooted)
    (same : ∀ object, after.parent object = before.parent object) : after.Rooted :=
  fun object parent delegates => rooted object parent (same object ▸ delegates)

private theorem Rooted.step {before after : Store} (rooted : before.Rooted)
    (step : Step before after) :
    after.Rooted := by
  cases step with
  | createObject parent => exact rooted.createObject parent
  | insert | update | define => exact rooted.of_parent_eq (parent_updateMembers _ _ _)
  | erase => exact rooted.of_parent_eq (parent_updateMembers _ _ _)
  | prototypeOf procedure =>
      rcases before.prototypeOf_cases procedure with unchanged | ⟨_, made⟩
      · rw [unchanged]
        exact rooted
      · rw [made]
        exact (rooted.createObject none).of_parent_eq fun _ => rfl
  | addProcedure | addLayer | setStandalone | addComposite | setDefiner | report =>
      exact rooted.of_parent_eq fun _ => rfl

theorem Rooted.evolves {before after : Store} (rooted : before.Rooted)
    (evolution : before.Evolves after) : after.Rooted := by
  induction evolution with
  | refl => exact rooted
  | tail _ step induction => exact induction.step step

/-- In every store that the initial one evolves to, delegation leads to older objects. -/
theorem rooted_of_evolves_initial {store : Store} (evolution : Store.initial.Evolves store) :
    store.Rooted :=
  rooted_initial.evolves evolution

/-! ### Ancestries in rooted stores -/

section Ancestry

variable {store : Store}

theorem ancestryWithin_eq_of_le (rooted : store.Rooted) {object : ObjectId} {limit : Nat}
    (enough : object.index < limit) :
    store.ancestryWithin limit object = store.ancestry object := by
  induction limit using Nat.strongRecOn generalizing object with
  | ind limit induction =>
      cases limit with
      | zero => omega
      | succ limit =>
          rw [ancestry, ancestryWithin, ancestryWithin]
          cases delegates : store.parent object with
          | none => rfl
          | some parent =>
              have older := rooted object parent delegates
              by_cases equal : limit = object.index
              · rw [equal]
              · simp only
                rw [induction limit (Nat.lt_succ_self limit) (by omega),
                  induction object.index (by omega) older]

theorem ancestors_eq (rooted : store.Rooted) (object : ObjectId) :
    store.ancestors object =
      match store.parent object with
      | none => []
      | some parent => store.ancestry parent := by
  rw [ancestors, ancestry, ancestryWithin]
  cases delegates : store.parent object with
  | none => rfl
  | some parent => exact ancestryWithin_eq_of_le rooted (rooted object parent delegates)

theorem ancestry_eq (rooted : store.Rooted) (object : ObjectId) :
    store.ancestry object =
      object :: match store.parent object with
        | none => []
        | some parent => store.ancestry parent := by
  rw [ancestry_eq_cons, ancestors_eq rooted]

/-- An induction along delegation: what holds of an object if it holds of its parent
holds of every object. -/
theorem Rooted.delegation_induction (rooted : store.Rooted) {property : ObjectId → Prop}
    (each : ∀ object, (∀ parent, store.parent object = some parent → property parent) →
      property object) (object : ObjectId) : property object := by
  rcases object with ⟨index⟩
  induction index using Nat.strongRecOn with
  | ind index induction =>
      exact each ⟨index⟩ fun parent delegates =>
        induction parent.index (rooted ⟨index⟩ parent delegates)

theorem Rooted.hasObject_parent (rooted : store.Rooted) {object parent : ObjectId}
    (known : store.hasObject object = true) (delegates : store.parent object = some parent) :
    store.hasObject parent = true := by
  rw [hasObject_iff] at known ⊢
  exact Nat.lt_trans (rooted object parent delegates) known

theorem index_le_of_mem_ancestry (rooted : store.Rooted) {object level : ObjectId}
    (member : level ∈ store.ancestry object) : level.index ≤ object.index := by
  induction object using rooted.delegation_induction with
  | each object induction =>
      rw [ancestry_eq rooted] at member
      rcases List.mem_cons.mp member with equal | farther
      · exact Nat.le_of_eq (congrArg ObjectId.index equal)
      · cases delegates : store.parent object with
        | none => simp [delegates] at farther
        | some parent =>
            rw [delegates] at farther
            have nearer := induction parent delegates farther
            have older := rooted object parent delegates
            omega

theorem nodup_ancestry (rooted : store.Rooted) (object : ObjectId) :
    (store.ancestry object).Nodup := by
  induction object using rooted.delegation_induction with
  | each object induction =>
      rw [ancestry_eq rooted]
      cases delegates : store.parent object with
      | none => exact List.nodup_cons.mpr ⟨List.not_mem_nil, List.nodup_nil⟩
      | some parent =>
          refine List.nodup_cons.mpr ⟨fun member => ?_, induction parent delegates⟩
          exact absurd (rooted object parent delegates)
            (Nat.not_lt.mpr (index_le_of_mem_ancestry rooted member))

theorem lookup_eq_of_not_owned (rooted : store.Rooted) {object parent : ObjectId}
    {name : String} (delegates : store.parent object = some parent)
    (missing : store.ownDescriptor? object name = none) :
    store.lookup object name = store.lookup parent name := by
  rw [lookup, ancestry_eq rooted, delegates, List.findSome?_cons, missing]
  rfl

theorem hasObject_of_mem_ancestry (rooted : store.Rooted) {object level : ObjectId}
    (known : store.hasObject object = true) (member : level ∈ store.ancestry object) :
    store.hasObject level = true := by
  rw [hasObject_iff] at known ⊢
  exact Nat.lt_of_le_of_lt (index_le_of_mem_ancestry rooted member) known

/-! What an object delegates to lies on the line of its parent. -/

theorem isPrototypeOf_iff_of_parent (rooted : store.Rooted) {object parent : ObjectId}
    (delegates : store.parent object = some parent) {table : ObjectId} :
    store.isPrototypeOf table object = true ↔ table ∈ store.ancestry parent := by
  rw [isPrototypeOf, decide_eq_true_iff, ancestors_eq rooted, delegates]

theorem index_lt_of_isPrototypeOf (rooted : store.Rooted) {table object : ObjectId}
    (farther : store.isPrototypeOf table object = true) : table.index < object.index := by
  cases delegates : store.parent object with
  | none =>
      rw [isPrototypeOf, decide_eq_true_iff, ancestors_eq rooted, delegates] at farther
      cases farther
  | some parent =>
      have member := (isPrototypeOf_iff_of_parent rooted delegates).mp farther
      exact Nat.lt_of_le_of_lt (index_le_of_mem_ancestry rooted member)
        (rooted object parent delegates)

theorem isPrototypeOf_trans (rooted : store.Rooted) {far near object : ObjectId}
    (farther : store.isPrototypeOf far near = true)
    (nearer : store.isPrototypeOf near object = true) :
    store.isPrototypeOf far object = true := by
  induction object using rooted.delegation_induction with
  | each object induction =>
      cases parent : store.parent object with
      | none =>
          rw [isPrototypeOf, decide_eq_true_iff, ancestors_eq rooted, parent] at nearer
          cases nearer
      | some parent_ =>
          rw [isPrototypeOf_iff_of_parent rooted parent] at nearer ⊢
          rw [ancestry_eq_cons, List.mem_cons] at nearer ⊢
          right
          rcases nearer with rfl | nearer
          · exact of_decide_eq_true farther
          · exact of_decide_eq_true (induction parent_ parent (decide_eq_true nearer))

end Ancestry

/-! ### Lookups in an evolving store -/

theorem Extends.ancestry_eq {before after : Store} (extends_ : before.Extends after)
    (rooted : before.Rooted) (rootedAfter : after.Rooted) {object : ObjectId}
    (known : before.hasObject object = true) :
    after.ancestry object = before.ancestry object := by
  induction object using rooted.delegation_induction with
  | each object induction =>
      rw [Store.ancestry_eq rooted, Store.ancestry_eq rootedAfter,
        (extends_.object object known).2]
      cases delegates : before.parent object with
      | none => rfl
      | some parent =>
          dsimp only
          rw [induction parent delegates (rooted.hasObject_parent known delegates)]

theorem Extends.isPrototypeOf {before after : Store} (extends_ : before.Extends after)
    (rooted : before.Rooted) (rootedAfter : after.Rooted) {prototype object : ObjectId}
    (delegates : before.isPrototypeOf prototype object = true) :
    after.isPrototypeOf prototype object = true := by
  have known : before.hasObject object = true := by
    rw [Store.isPrototypeOf, decide_eq_true_iff, ancestors_eq rooted] at delegates
    cases parent : before.parent object with
    | none =>
        rw [parent] at delegates
        cases delegates
    | some ancestor => exact hasObject_of_parent parent
  rw [Store.isPrototypeOf, ancestors, extends_.ancestry_eq rooted rootedAfter known]
  exact delegates

/-- Two stores resolve a name alike for an object that has the same ancestry in both,
if every level owns the same under the name. -/
theorem lookup_congr {before after : Store} {object : ObjectId} {name : String}
    (sameAncestry : after.ancestry object = before.ancestry object)
    (sameOwn : ∀ level ∈ before.ancestry object,
      after.ownDescriptor? level name = before.ownDescriptor? level name) :
    after.lookup object name = before.lookup object name := by
  rw [lookup, lookup, sameAncestry]
  generalize before.ancestry object = levels at sameOwn
  induction levels with
  | nil => rfl
  | cons level levels induction =>
      rw [List.findSome?_cons, List.findSome?_cons, sameOwn level (List.mem_cons_self ..),
        induction fun other member => sameOwn other (List.mem_cons_of_mem _ member)]

theorem inherits_congr {before after : Store} {object : ObjectId} {name : String}
    (sameAncestry : after.ancestry object = before.ancestry object)
    (sameOwn : ∀ level ∈ before.ancestry object,
      after.ownDescriptor? level name = before.ownDescriptor? level name) (method : Value) :
    after.inherits object name method = before.inherits object name method := by
  have levels : after.ancestors object = before.ancestors object := by
    rw [ancestors, ancestors, sameAncestry]
  rw [Bool.eq_iff_iff, inherits, inherits, List.any_eq_true, List.any_eq_true, levels]
  apply exists_congr
  intro level
  apply and_congr_right
  intro member
  rw [sameOwn level (List.mem_of_mem_tail member)]

end TraitComposition.Store
