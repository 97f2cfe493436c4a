import TraitComposition.Proofs.Composition.Creation

/-!
Materialised accessors. Construction ends with the instance being made to own the
enumerable accessors that it inherits, unless the type does without. Each is stored as
what its name resolves to already, so nothing but ownership changes.
-/
namespace TraitComposition

variable {σ : Type}

namespace Store

/-! ### Owning what is resolved -/

def own (store : Store) (target : ObjectId) (name : String) : Store :=
  store.updateMembers target fun members =>
    (store.descriptor? target name).elim members (members.insert name)

def ownAll (target : ObjectId) (names : List String) (store : Store) : Store :=
  names.foldl (fun store name => store.own target name) store

def inheritsAccessor (store : Store) (object : ObjectId) (name : String) : Bool :=
  !store.hasOwn object name && (store.descriptor? object name).any Descriptor.isAccessor

def inheritedAccessors (store : Store) (object : ObjectId) : List String :=
  (store.enumerableNames object).filter (store.inheritsAccessor object)

private theorem ancestry_updateMembers (store : Store) (target : ObjectId)
    (update : MemberTable → MemberTable) (object : ObjectId) :
    (store.updateMembers target update).ancestry object = store.ancestry object :=
  ancestry_of_parent_eq (parent_updateMembers store target update) object

section Own

variable (store : Store) (target : ObjectId)

private theorem own_of_resolved {name : String} {descriptor : Descriptor}
    (resolved : store.descriptor? target name = some descriptor) :
    store.own target name = store.storeMember target name descriptor := by
  rw [own, resolved]
  rfl

private theorem own_of_unresolved {name : String}
    (unresolved : store.descriptor? target name = none)
    (object : ObjectId) : (store.own target name).object object = store.object object := by
  rw [own, unresolved, object_updateMembers]
  split <;> rfl

private theorem ownDescriptor?_own (name other : String) :
    (store.own target name).ownDescriptor? target other =
      if other = name then store.descriptor? target name
      else store.ownDescriptor? target other := by
  cases resolved : store.descriptor? target name with
  | none =>
      rw [ownDescriptor?, members, own_of_unresolved store target resolved, ← members,
        ← ownDescriptor?]
      by_cases equal : other = name
      · rw [if_pos equal, equal, Option.eq_none_iff_forall_ne_some]
        intro descriptor owned
        rw [descriptor?_of_own owned] at resolved
        cases resolved
      · rw [if_neg equal]
  | some descriptor =>
      rw [own_of_resolved store target resolved]
      by_cases equal : other = name
      · rw [if_pos equal, equal]
        exact ownDescriptor?_storeMember_same _ _ _ _ (hasObject_of_descriptor? resolved)
      · rw [if_neg equal]
        exact ownDescriptor?_storeMember_other store descriptor fun both => equal both.2

theorem descriptor?_own (name other : String) :
    (store.own target name).descriptor? target other = store.descriptor? target other := by
  have levels : (store.own target name).ancestry target = store.ancestry target :=
    ancestry_updateMembers ..
  cases resolved : store.descriptor? target name with
  | none =>
      rw [descriptor?, descriptor?, lookup_congr levels]
      intro level _
      rw [ownDescriptor?, members, own_of_unresolved store target resolved]
      rfl
  | some descriptor =>
      by_cases equal : other = name
      · rw [equal, resolved]
        apply descriptor?_of_own
        rw [ownDescriptor?_own, if_pos rfl, resolved]
      · rw [descriptor?, descriptor?, lookup_congr levels]
        intro level _
        rw [own_of_resolved store target resolved]
        exact ownDescriptor?_storeMember_other store descriptor fun both => equal both.2

private theorem ownNames_own {name : String} {descriptor : Descriptor}
    (resolved : store.descriptor? target name = some descriptor)
    (unowned : store.ownDescriptor? target name = none) :
    (store.own target name).ownNames target = store.ownNames target ++ [name] := by
  rw [own_of_resolved store target resolved, ownNames, storeMember,
    members_updateMembers_same _ _ _ (hasObject_of_descriptor? resolved)]
  exact MemberTable.names_insert_of_not_mem descriptor (MemberTable.find?_eq_none_iff.mp unowned)

end Own

section OwnAll

variable (target : ObjectId)

theorem ownAll_keeps (names : List String) (store : Store) :
    ownAll target names store = { store with objects := (ownAll target names store).objects } ∧
      (ownAll target names store).objects.size = store.objects.size ∧
      (∀ other ≠ target, (ownAll target names store).object other = store.object other) ∧
      (ownAll target names store).parent target = store.parent target := by
  induction names generalizing store with
  | nil => exact ⟨rfl, rfl, fun _ _ => rfl, rfl⟩
  | cons name names induction =>
      rcases induction (store.own target name) with ⟨rest, size, others, parent⟩
      refine ⟨rest, size.trans (objects_size_updateMembers ..), fun other different => ?_,
        parent.trans (parent_updateMembers ..)⟩
      refine (others other different).trans ?_
      rw [own, object_updateMembers, if_neg fun both => different both.1.symm]

private theorem descriptor?_ownAll (names : List String) (store : Store) (other : String) :
    (ownAll target names store).descriptor? target other = store.descriptor? target other := by
  induction names generalizing store with
  | nil => rfl
  | cons name names induction => exact (induction _).trans (descriptor?_own store target name other)

private theorem ownDescriptor?_ownAll (names : List String) (store : Store) (other : String) :
    (ownAll target names store).ownDescriptor? target other =
      if other ∈ names then store.descriptor? target other
      else store.ownDescriptor? target other := by
  induction names generalizing store with
  | nil => rfl
  | cons name names induction =>
      refine (induction (store.own target name)).trans ?_
      rw [descriptor?_own, ownDescriptor?_own]
      by_cases equal : other = name <;> simp [equal]

private theorem hasOwn_ownAll (names : List String) (store : Store) (other : String) :
    (ownAll target names store).hasOwn target other =
      if other ∈ names then (store.descriptor? target other).isSome
      else store.hasOwn target other := by
  rw [hasOwn_eq_isSome, hasOwn_eq_isSome, ownDescriptor?_ownAll]
  split <;> rfl

variable {target} in
private theorem ownNames_ownAll {names : List String} {store : Store} (nodup : names.Nodup)
    (inherited : ∀ name ∈ names, store.ownDescriptor? target name = none ∧
      ∃ descriptor, store.descriptor? target name = some descriptor) :
    (ownAll target names store).ownNames target = store.ownNames target ++ names := by
  induction names generalizing store with
  | nil => simp [ownAll]
  | cons name names induction =>
      rw [List.nodup_cons] at nodup
      rw [List.forall_mem_cons] at inherited
      rcases inherited with ⟨⟨unowned, descriptor, resolved⟩, rest⟩
      have later : (ownAll target names (store.own target name)).ownNames target = _ :=
        induction nodup.2 fun other member => by
          have different : other ≠ name := fun equal => nodup.1 (equal ▸ member)
          rw [ownDescriptor?_own, if_neg different, descriptor?_own]
          exact rest other member
      rw [ownAll, List.foldl_cons, ← ownAll, later, ownNames_own store target resolved unowned,
        List.append_assoc, List.singleton_append]

end OwnAll

section InheritedAccessors

variable {store : Store} {object : ObjectId} {name : String}

private theorem inheritsAccessor_own_of_ne {other : String} (different : other ≠ name) :
    (store.own object name).inheritsAccessor object other =
      store.inheritsAccessor object other := by
  rw [inheritsAccessor, inheritsAccessor, descriptor?_own, hasOwn_eq_isSome, hasOwn_eq_isSome,
    ownDescriptor?_own, if_neg different]

private theorem mem_inheritedAccessors_iff_descriptor? :
    name ∈ store.inheritedAccessors object ↔ store.ownDescriptor? object name = none ∧
      ∃ descriptor, store.descriptor? object name = some descriptor ∧
        descriptor.enumerable = true ∧ descriptor.isAccessor = true := by
  rw [inheritedAccessors, List.mem_filter, mem_enumerableNames_iff, inheritsAccessor,
    hasOwn_eq_isSome]
  cases resolved : store.descriptor? object name with
  | none => simp
  | some descriptor => simp [and_comm, and_assoc, and_left_comm]

theorem mem_inheritedAccessors_iff :
    name ∈ store.inheritedAccessors object ↔
      ∃ owner descriptor, store.lookup object name = some (owner, descriptor) ∧ owner ≠ object ∧
        descriptor.enumerable = true ∧ descriptor.isAccessor = true := by
  rw [mem_inheritedAccessors_iff_descriptor?]
  constructor
  · rintro ⟨unowned, descriptor, resolved, enumerable, accessor⟩
    rcases Option.map_eq_some_iff.mp resolved with ⟨⟨owner, nearest⟩, found, rfl⟩
    refine ⟨owner, nearest, found, ?_, enumerable, accessor⟩
    rintro rfl
    rw [(ownDescriptor?_of_lookup found).2] at unowned
    cases unowned
  · rintro ⟨owner, descriptor, found, farther, enumerable, accessor⟩
    exact ⟨ownDescriptor?_of_farther found farther, descriptor, by rw [descriptor?, found]; rfl,
      enumerable, accessor⟩

private theorem nodup_inheritedAccessors (store : Store) (object : ObjectId) :
    (store.inheritedAccessors object).Nodup :=
  (nodup_enumerableNames store object).filter _

def owningAccessors (store : Store) (object : ObjectId) : Store :=
  ownAll object (store.inheritedAccessors object) store

private theorem descriptor?_owningAccessors (store : Store) (object : ObjectId) (name : String) :
    (store.owningAccessors object).descriptor? object name = store.descriptor? object name :=
  descriptor?_ownAll object _ store name

private theorem hasOwn_owningAccessors_of_not_mem
    (missing : name ∉ store.inheritedAccessors object) :
    (store.owningAccessors object).hasOwn object name = store.hasOwn object name := by
  rw [owningAccessors, hasOwn_ownAll, if_neg missing]

private theorem hasOwn_owningAccessors_iff :
    (store.owningAccessors object).hasOwn object name = true ↔
      store.hasOwn object name = true ∨ name ∈ store.inheritedAccessors object := by
  by_cases member : name ∈ store.inheritedAccessors object
  · rcases (mem_inheritedAccessors_iff_descriptor?.mp member).2 with ⟨descriptor, resolved, _⟩
    rw [owningAccessors, hasOwn_ownAll, if_pos member, resolved]
    simp [member]
  · rw [hasOwn_owningAccessors_of_not_mem member]
    simp [member]

private theorem ownDescriptor?_owningAccessors (owned : store.hasOwn object name = true) :
    (store.owningAccessors object).ownDescriptor? object name =
      store.ownDescriptor? object name := by
  rw [owningAccessors, ownDescriptor?_ownAll, if_neg]
  intro member
  rw [hasOwn_eq_isSome, (mem_inheritedAccessors_iff_descriptor?.mp member).1] at owned
  cases owned

private theorem enumerableNames_owningAccessors (store : Store) (object : ObjectId) :
    ((store.owningAccessors object).enumerableNames object).Perm
      (store.enumerableNames object) := by
  refine (List.perm_ext_iff_of_nodup (nodup_enumerableNames _ _)
    (nodup_enumerableNames _ _)).mpr fun name => ?_
  rw [mem_enumerableNames_iff, mem_enumerableNames_iff, descriptor?_owningAccessors]

private theorem ownNames_owningAccessors (store : Store) (object : ObjectId) :
    (store.owningAccessors object).ownNames object =
      store.ownNames object ++ store.inheritedAccessors object := by
  refine ownNames_ownAll (nodup_inheritedAccessors store object) fun name member => ?_
  rcases mem_inheritedAccessors_iff_descriptor?.mp member with ⟨unowned, descriptor, resolved, _⟩
  exact ⟨unowned, descriptor, resolved⟩

end InheritedAccessors

end Store

private theorem Store.owner_eq_iff {store : Store} {object owner : ObjectId} {name : String}
    {descriptor : Descriptor} (found : store.lookup object name = some (owner, descriptor)) :
    owner = object ↔ store.hasOwn object name = true := by
  constructor
  · rintro rfl
    rw [hasOwn_eq_isSome, (ownDescriptor?_of_lookup found).2]
    rfl
  · intro owned
    rw [hasOwn_eq_isSome] at owned
    rcases Option.isSome_iff_exists.mp owned with ⟨nearest, owned⟩
    rw [lookup_of_own owned] at found
    cases found
    rfl

/-! ### Using a member -/

namespace Member

variable (meaning : Meaning σ) (object : ObjectId) (name : String)

inductive Access where
  | ends (result : Except Fault Value)
  | calls (procedure : ProcedureId) (arguments : List Value)
  | stores (descriptor : Descriptor)

namespace Access

def ofRead (resolved : Option Descriptor) : Access :=
  match resolved.map Descriptor.shape with
  | none | some (.accessor none _) => .ends (.ok .undefined)
  | some (.data value _) => .ends (.ok value)
  | some (.accessor (some getter) _) => .calls getter []

def ofAssign (name : String) (value : Value) (owned : Bool) : Option Descriptor → Access
  | none => .stores (.ofValue value)
  | some descriptor =>
      match descriptor.shape with
      | .accessor _ (some setter) => .calls setter [value]
      | .accessor _ none | .data _ false => .ends (.error (.readOnly name))
      | .data _ true => .stores (if owned then descriptor.withValue value else .ofValue value)

private theorem ofAssign_of_isAccessor {descriptor : Descriptor}
    (accessor : descriptor.isAccessor = true) (name : String) (value : Value)
    (left right : Bool) :
    ofAssign name value left (some descriptor) = ofAssign name value right (some descriptor) := by
  rcases descriptor with ⟨_ | ⟨_, _ | _⟩, _, _⟩
  · cases accessor
  · rfl
  · rfl

def carryOut : Access → Action σ Value
  | ends result => Action.ofExcept result
  | calls procedure arguments =>
      Action.naming name (meaning.call procedure (.object object) arguments)
  | stores descriptor => do
      Action.change (·.storeMember object name descriptor)
      return .undefined

end Access

private theorem run_read (world : World σ) :
    (read meaning object name).run world =
      ((Access.ofRead (world.store.descriptor? object name)).carryOut meaning object name).run
        world := by
  rw [read, Action.run_getStore_bind, Access.ofRead]
  rcases (world.store.descriptor? object name).map Descriptor.shape with
    _ | ⟨_, _⟩ | ⟨_ | _, _⟩ <;> rfl

def callRead (arguments : List Value) : Value → Action σ Value
  | .procedure procedure =>
      Action.naming name (meaning.call procedure (.object object) arguments)
  | _ => throw (.notCallable name)

private theorem invoke_eq_read_bind (arguments : List Value) :
    invoke meaning object name arguments =
      read meaning object name >>= callRead meaning object name arguments := rfl

variable {meaning object name} in
private theorem run_read_and_invoke {world : World σ} {resolved : Option Descriptor}
    (same : world.store.descriptor? object name = resolved) :
    (read meaning object name).run world =
        ((Access.ofRead resolved).carryOut meaning object name).run world ∧
      ∀ arguments, (invoke meaning object name arguments).run world =
        ((Access.ofRead resolved).carryOut meaning object name >>=
          callRead meaning object name arguments).run world := by
  have reads := run_read meaning object name world
  rw [same] at reads
  refine ⟨reads, fun arguments => ?_⟩
  rw [invoke_eq_read_bind, Action.run_bind, Action.run_bind, reads]

private theorem run_assign_eq (value : Value) (world : World σ) :
    (assign meaning object name value).run world =
      (do
        let _ ← (Access.ofAssign name value (world.store.hasOwn object name)
          (world.store.descriptor? object name)).carryOut meaning object name).run world := by
  rw [assign, Action.run_getStore_bind]
  cases found : world.store.lookup object name with
  | none =>
      rw [Store.descriptor?, found]
      rfl
  | some nearest =>
      rcases nearest with ⟨owner, descriptor⟩
      have resolved : world.store.descriptor? object name = some descriptor := by
        rw [Store.descriptor?, found]
        rfl
      rw [resolved, Access.ofAssign]
      dsimp only
      rcases descriptor.shape with ⟨old, _ | _⟩ | ⟨_, _ | setter⟩
      · rfl
      · dsimp only
        by_cases equal : owner = object
        · rw [if_pos equal, (Store.owner_eq_iff found).mp equal]
          rfl
        · rw [if_neg equal, if_neg (mt (Store.owner_eq_iff found).mpr equal)]
          rfl
      · rfl
      · rfl

theorem Access.ofAssign_owningAccessors (store : Store) (value : Value) :
    ofAssign name value ((store.owningAccessors object).hasOwn object name)
        ((store.owningAccessors object).descriptor? object name) =
      ofAssign name value (store.hasOwn object name) (store.descriptor? object name) := by
  rw [Store.descriptor?_owningAccessors]
  by_cases member : name ∈ store.inheritedAccessors object
  · rcases (Store.mem_inheritedAccessors_iff_descriptor?.mp member).2 with
      ⟨descriptor, resolved, _, accessor⟩
    rw [resolved]
    exact ofAssign_of_isAccessor accessor ..
  · rw [Store.hasOwn_owningAccessors_of_not_mem member]

end Member

/-! ### Worlds that differ in ownership -/

/-- The second world differs from the first in nothing but that the object newly owns the
enumerable accessors that it inherits in the first. -/
structure World.Materializes (object : ObjectId) (lazy eager : World σ) : Prop where
  rest : eager = { lazy with store := { lazy.store with objects := eager.store.objects } }
  size : eager.store.objects.size = lazy.store.objects.size
  others : ∀ other ≠ object, eager.store.object other = lazy.store.object other
  parent : eager.store.parent object = lazy.store.parent object
  resolves : ∀ name, eager.store.descriptor? object name = lazy.store.descriptor? object name
  enumerates : (eager.store.enumerableNames object).Perm (lazy.store.enumerableNames object)
  names : eager.store.ownNames object =
    lazy.store.ownNames object ++ lazy.store.inheritedAccessors object
  keeps : ∀ name, lazy.store.hasOwn object name = true →
    eager.store.ownDescriptor? object name = lazy.store.ownDescriptor? object name
  owns : ∀ name, eager.store.hasOwn object name = true ↔
    lazy.store.hasOwn object name = true ∨
      ∃ owner descriptor, lazy.store.lookup object name = some (owner, descriptor) ∧
        owner ≠ object ∧ descriptor.enumerable = true ∧ descriptor.isAccessor = true
  reads : ∀ (meaning : Meaning σ) (name : String), ∃ access : Member.Access,
    ∀ world ∈ [lazy, eager],
      (Member.read meaning object name).run world =
        (access.carryOut meaning object name).run world ∧
      ∀ arguments, (Member.invoke meaning object name arguments).run world =
        (access.carryOut meaning object name >>=
          Member.callRead meaning object name arguments).run world
  assigns : ∀ (meaning : Meaning σ) (name : String) (value : Value), ∃ access : Member.Access,
    ∀ world ∈ [lazy, eager],
      (Member.assign meaning object name value).run world =
        (do let _ ← access.carryOut meaning object name).run world

theorem World.Materializes.inheritedAccessors_eq_nil {object : ObjectId} {lazy eager : World σ}
    (materializes : lazy.Materializes object eager) :
    eager.store.inheritedAccessors object = [] := by
  rw [List.eq_nil_iff_forall_not_mem]
  intro name left
  rw [Store.mem_inheritedAccessors_iff_descriptor?, materializes.resolves,
    ← Option.not_isSome_iff_eq_none, ← Store.hasOwn_eq_isSome, materializes.owns,
    ← Store.mem_inheritedAccessors_iff, Store.mem_inheritedAccessors_iff_descriptor?, not_or,
    Store.hasOwn_eq_isSome, Option.not_isSome_iff_eq_none] at left
  exact left.1.2 ⟨left.1.1, left.2⟩

namespace Composite

open TraitComposition.Action (run_bind_of_ok run_bind_of_error)

def materializing (type : Composite) (flag : Bool) : Composite :=
  { type with composer :=
      { type.composer with config := { type.composer.config with materializeAccessors := flag } } }

private theorem materializing_self (type : Composite) :
    type.materializing type.composer.config.materializeAccessors = type := rfl

section Materialize

variable (meaning : Meaning σ) {target : ObjectId}

private theorem run_materializeMember (name : String) (world : World σ) :
    (materializeMember meaning .raw target name).run world =
      (.ok (), if world.store.inheritsAccessor target name then
        { world with store := world.store.own target name } else world) := by
  rw [materializeMember, Action.run_getStore_bind, Store.inheritsAccessor,
    Store.hasOwn_eq_isSome]
  cases unowned : world.store.ownDescriptor? target name with
  | some descriptor => rfl
  | none =>
      cases resolved : world.store.descriptor? target name with
      | none => rfl
      | some descriptor =>
          cases accessor : descriptor.isAccessor with
          | false => simp [accessor]
          | true =>
              simp only [accessor, Option.any_some, Option.isSome_none, Bool.not_false,
                Bool.and_self, if_true, Bool.false_eq_true, if_false]
              rw [Store.own_of_resolved _ _ resolved]
              exact Member.run_define descriptor unowned

theorem run_materializeMembers {names : List String} (nodup : names.Nodup) (world : World σ) :
    (names.forM (materializeMember meaning .raw target)).run world =
      (.ok (), { world with
        store := Store.ownAll target (names.filter (world.store.inheritsAccessor target))
          world.store }) := by
  induction names generalizing world with
  | nil => rfl
  | cons name names induction =>
      rw [List.nodup_cons] at nodup
      rw [List.forM, Action.run_bind_of_ok _ (run_materializeMember meaning name world),
        List.filter_cons]
      cases inherits : world.store.inheritsAccessor target name with
      | false => exact induction nodup.2 world
      | true =>
          refine (induction nodup.2 _).trans ?_
          have rest : names.filter ((world.store.own target name).inheritsAccessor target) =
              names.filter (world.store.inheritsAccessor target) :=
            List.filter_congr fun other member =>
              Store.inheritsAccessor_own_of_ne fun equal => nodup.1 (equal ▸ member)
          simp only [if_true]
          rw [rest]
          rfl

private theorem run_materialize {world : World σ}
    (missing : world.store.has target Definer.memberName = false) :
    (materialize meaning target).run world =
      (.ok (), { world with store := world.store.owningAccessors target }) := by
  rw [materialize, Action.run_bind_of_ok _ (Definer.run_ofValue_of_missing meaning missing),
    Action.run_getStore_bind]
  exact run_materializeMembers meaning (Store.nodup_enumerableNames _ _) world

variable (target) in
private theorem materializes_owningAccessors (world : World σ) :
    World.Materializes target world { world with store := world.store.owningAccessors target } := by
  rcases Store.ownAll_keeps target (world.store.inheritedAccessors target) world.store with
    ⟨rest, size, others, parent⟩
  exact
    { rest := by rw [Store.owningAccessors, rest]
      size, others, parent
      resolves := world.store.descriptor?_owningAccessors target
      enumerates := world.store.enumerableNames_owningAccessors target
      names := world.store.ownNames_owningAccessors target
      keeps := fun _ => Store.ownDescriptor?_owningAccessors
      owns := fun _ => by rw [Store.hasOwn_owningAccessors_iff, Store.mem_inheritedAccessors_iff]
      reads := fun meaning name => by
        refine ⟨Member.Access.ofRead (world.store.descriptor? target name), fun each member => ?_⟩
        rcases List.mem_pair.mp member with rfl | rfl
        · exact Member.run_read_and_invoke rfl
        · exact Member.run_read_and_invoke (world.store.descriptor?_owningAccessors target name)
      assigns := fun meaning name value => by
        refine ⟨Member.Access.ofAssign name value (world.store.hasOwn target name)
          (world.store.descriptor? target name), fun each member => ?_⟩
        rcases List.mem_pair.mp member with rfl | rfl
        · exact Member.run_assign_eq ..
        · rw [Member.run_assign_eq, Member.Access.ofAssign_owningAccessors] }

private theorem run_materialize_of_materializes {lazy eager : World σ}
    (materializes : lazy.Materializes target eager)
    (missing : lazy.store.has target Definer.memberName = false) :
    (materialize meaning target).run eager = (.ok (), eager) := by
  have still : eager.store.has target Definer.memberName = false := by
    rw [Store.has, ← Option.isSome_map, ← Store.descriptor?, materializes.resolves,
      Store.descriptor?, Option.isSome_map, ← Store.has, missing]
  rw [run_materialize meaning still, Store.owningAccessors,
    materializes.inheritedAccessors_eq_nil]
  rfl

end Materialize

section Construct

variable (type : Composite) (meaning : Meaning σ) (receiver : Value) (arguments : List Value)

private theorem construct_materializing :
    (type.materializing true).construct meaning receiver arguments = (do
      let built ← (type.materializing false).construct meaning receiver arguments
      materialize meaning built
      return built) := by
  simp [construct_eq, complete, materializing]

/-- Materialising adds no failure, runs no user code and changes nothing but what the instance
owns, unless the instance resolves a definer; and it comes to nothing the second time. -/
theorem construct_with_accessors (world : World σ) :
    (∀ fault later,
      ((type.materializing false).construct meaning receiver arguments).run world =
          (.error fault, later) →
        ((type.materializing true).construct meaning receiver arguments).run world =
          (.error fault, later)) ∧
    ∀ built lazy,
      ((type.materializing false).construct meaning receiver arguments).run world =
          (.ok built, lazy) →
        lazy.store.has built Definer.memberName = false →
        ∃ eager,
          ((type.materializing true).construct meaning receiver arguments).run world =
            (.ok built, eager) ∧
          lazy.Materializes built eager ∧
          ∀ other : Meaning σ,
            (materialize other built).run lazy = (.ok (), eager) ∧
            (materialize other built).run eager = (.ok (), eager) := by
  rw [construct_materializing]
  refine ⟨fun fault later failed => run_bind_of_error _ failed,
    fun built lazy ran missing => ?_⟩
  have materializes := materializes_owningAccessors built lazy
  have once (other : Meaning σ) := run_materialize other missing
  refine ⟨_, ?_, materializes, fun other =>
    ⟨once other, run_materialize_of_materializes other materializes missing⟩⟩
  rw [run_bind_of_ok _ ran, run_bind_of_ok _ (once meaning)]
  rfl

end Construct

/-! A type whose table hides one accessor of the table behind it by a member that is not
enumerable, another by a value, and itself has an accessor in place of a value. -/

def layeredTables : World Unit where
  store := { Store.initial with
    objects := #[
      { members := .ofEntries [("a", ⟨.accessor (some ⟨1⟩) none, true, true⟩),
          ("b", ⟨.accessor (some ⟨1⟩) none, true, true⟩), ("c", .ofValue .null),
          ("d", ⟨.accessor (some ⟨1⟩) none, true, true⟩)] },
      { parent := some ⟨0⟩
        members := .ofEntries [("b", ⟨.accessor (some ⟨1⟩) none, false, true⟩),
          ("c", ⟨.accessor (some ⟨1⟩) none, true, true⟩), ("d", .ofValue .null)] }]
    procedures := Store.initial.procedures.push { body := .code ⟨0⟩ } }
  codes := #[fun _ => .done (.error (.thrown "read"))]
  state := ()

def layeredType : World Unit :=
  ((({} : Composer).compose (.ofBudget 1) [.object ⟨1⟩]).run layeredTables).2

/-- The instance comes to own the accessors that are not hidden, and no getter runs. -/
theorem construct_with_accessors_of_layers :
    ∃ type lazy eager, layeredType.store.composite? ⟨2⟩ = some type ∧
      ((type.materializing false).construct (.ofBudget 2) .undefined []).run layeredType =
        (.ok ⟨2⟩, lazy) ∧
      lazy.store.has ⟨2⟩ Definer.memberName = false ∧ lazy.store.ownNames ⟨2⟩ = [] ∧
      (type.construct (.ofBudget 2) .undefined []).run layeredType = (.ok ⟨2⟩, eager) ∧
      eager.store.ownNames ⟨2⟩ = ["c", "a"] := by
  let type := (layeredType.store.composite? ⟨2⟩).get!
  have found : layeredType.store.composite? ⟨2⟩ = some type :=
    (Option.some_get! _ (by decide +kernel)).symm
  have ran := Action.run_eq_of_toOption
    ((type.materializing false).construct (.ofBudget 2) .undefined []) layeredType ⟨2⟩
    (by decide +kernel)
  have missing : (((type.materializing false).construct (.ofBudget 2) .undefined []).run
      layeredType).2.store.has ⟨2⟩ Definer.memberName = false := by
    decide +kernel
  have accessors : (((type.materializing false).construct (.ofBudget 2) .undefined []).run
      layeredType).2.store.inheritedAccessors ⟨2⟩ = ["c", "a"] := by
    decide +kernel
  have unowned : (((type.materializing false).construct (.ofBudget 2) .undefined []).run
      layeredType).2.store.ownNames ⟨2⟩ = [] := by
    decide +kernel
  rcases (construct_with_accessors type (.ofBudget 2) .undefined [] layeredType).2 _ _ ran
    missing with ⟨eager, built, materializes, _⟩
  have flag : type.composer.config.materializeAccessors = true := by decide +kernel
  rw [← flag, materializing_self] at built
  refine ⟨type, _, eager, found, ran, missing, unowned, built, ?_⟩
  rw [materializes.names, accessors, unowned]
  rfl

end Composite

end TraitComposition
