import TraitComposition.Proofs.Machine.Evolution
import TraitComposition.Proofs.Store.Assignment
import TraitComposition.Proofs.Store.Focus

/-!
The two things a merge does with a member: it weighs it, and it puts it on the
destination. Under the right circumstances neither fails and neither runs user code.
-/
namespace TraitComposition

variable {σ : Type} (meaning : Meaning σ) {world : World σ}

/-! ### Members -/

theorem Descriptor.value?_of_method? {descriptor : Descriptor} {method : ProcedureId}
    (holds : descriptor.method? = some method) : descriptor.value? = some (.procedure method) := by
  rcases Option.bind_eq_some_iff.mp holds with ⟨value, valued, procedure⟩
  cases value with
  | procedure reference =>
      cases procedure
      exact valued
  | _ => cases procedure

theorem Descriptor.withValue_of_value? {descriptor : Descriptor} {value : Value}
    (valued : descriptor.value? = some value) : descriptor.withValue value = descriptor := by
  rcases descriptor with ⟨shape, enumerable, configurable⟩
  cases shape with
  | data old writable =>
      cases valued
      rfl
  | accessor getter setter => cases valued

namespace Member

theorem run_define {object : ObjectId} {name : String} (descriptor : Descriptor)
    (missing : world.store.ownDescriptor? object name = none) :
    (define object name descriptor).run world =
      (.ok (), { world with store := world.store.storeMember object name descriptor }) :=
  run_define_of_accepts (Store.accepts_of_not_owned descriptor missing)

theorem run_assign {object owner : ObjectId} {name : String} {descriptor : Descriptor}
    {old : Value} (value : Value)
    (found : world.store.lookup object name = some (owner, descriptor))
    (writable : descriptor.shape = .data old true) :
    (assign meaning object name value).run world =
      (.ok (), { world with
        store := world.store.storeMember object name
          (if owner = object then descriptor.withValue value else .ofValue value) }) := by
  rw [assign, Action.run_getStore_bind, found]
  simp only [writable]
  split <;> rfl

theorem own_of_define {object : ObjectId} {name : String} {descriptor : Descriptor}
    {later : World σ} (known : world.store.hasObject object = true)
    (ran : (define object name descriptor).run world = (.ok (), later)) :
    later.store.ownDescriptor? object name = some descriptor := by
  rw [define, Action.run_getStore_bind] at ran
  split at ran
  · cases ran
    exact Store.ownDescriptor?_storeMember_same world.store object name descriptor known
  · cases ran

theorem run_assign_of_locked {object : ObjectId} {name : String} {descriptor : Descriptor}
    (value : Value) (owned : world.store.ownDescriptor? object name = some descriptor)
    (locked : ∀ old, descriptor.shape ≠ .data old true) :
    ∃ fault, (assign .exhausted object name value).run world = (.error fault, world) := by
  rw [assign, Action.run_getStore_bind, Store.lookup_of_own owned]
  dsimp only
  split
  · exact ⟨_, rfl⟩
  · exact ⟨_, rfl⟩
  · exact ⟨_, rfl⟩
  · next old writable => exact absurd writable (locked old)

end Member

namespace Merge

variable (plan : Plan) {name : String}

theorem run_put_of_not_owned (descriptor : Descriptor) (raw : plan.definer = .raw)
    (missing : world.store.ownDescriptor? plan.target name = none) :
    (put meaning plan name descriptor).run world =
      (.ok (), { world with store := world.store.storeMember plan.target name descriptor }) := by
  have defined := Member.run_define descriptor missing
  rw [put, raw]
  cases descriptor.value? with
  | none => exact defined
  | some value =>
      simp only [Action.run_getStore_bind, Store.hasOwn_eq_isSome, missing, Option.isSome_none]
      exact defined

theorem run_put_of_owned {descriptor existing : Descriptor} {value old : Value}
    (valued : descriptor.value? = some value)
    (owned : world.store.ownDescriptor? plan.target name = some existing)
    (writable : existing.shape = .data old true) :
    (put meaning plan name descriptor).run world =
      (.ok (), { world with
        store := world.store.storeMember plan.target name (existing.withValue value) }) := by
  have assigned := Member.run_assign meaning value (Store.lookup_of_own owned) writable
  rw [if_pos rfl] at assigned
  rw [put, valued]
  simp only [Action.run_getStore_bind, Store.hasOwn_eq_isSome, owned, Option.isSome_some, if_true]
  exact assigned

theorem run_put_of_plain (raw : plan.definer = .raw) (value : Value)
    (plain : ∀ descriptor, world.store.ownDescriptor? plan.target name = some descriptor →
      ∃ old, descriptor = .ofValue old) :
    (put meaning plan name (.ofValue value)).run world =
      (.ok (), { world with
        store := world.store.storeMember plan.target name (.ofValue value) }) := by
  cases owned : world.store.ownDescriptor? plan.target name with
  | none => exact run_put_of_not_owned meaning plan _ raw owned
  | some existing =>
      rcases plain existing owned with ⟨old, rfl⟩
      exact run_put_of_owned meaning plan rfl owned rfl

end Merge

/-! ### Putting without a call -/

section Refusing

def Meaning.Refuses : Prop :=
  ∀ procedure receiver arguments, ∃ fault, meaning.call procedure receiver arguments = throw fault

variable {meaning}

private theorem Meaning.Refuses.not_called (refuses : meaning.Refuses) {procedure : ProcedureId}
    {receiver answer : Value} {arguments : List Value} {name : String} {later : World σ} :
    (Action.naming name (meaning.call procedure receiver arguments)).run world ≠
      (.ok answer, later) := by
  rcases refuses procedure receiver arguments with ⟨fault, refused⟩
  rw [refused, Action.run_naming]
  rintro ⟨⟩

/-- What is put without a call is stored, as it is or as the new value of an own member. -/
theorem Merge.stores_of_put (refuses : meaning.Refuses) {plan : Plan} {name : String}
    {descriptor : Descriptor} {later : World σ}
    (ran : (put meaning plan name descriptor).run world = (.ok (), later)) :
    ∃ stored, later = { world with store := world.store.storeMember plan.target name stored } ∧
      (stored = descriptor ∨ ∃ existing value old,
        world.store.ownDescriptor? plan.target name = some existing ∧
          existing.shape = .data old true ∧ descriptor.value? = some value ∧
          stored = existing.withValue value) := by
  have defined (ran : (plan.definer.define meaning plan.target name descriptor).run world =
      (.ok (), later)) :
      later = { world with store := world.store.storeMember plan.target name descriptor } := by
    cases definer : plan.definer with
    | raw =>
      rw [definer, Definer.define, Member.define, Action.run_getStore_bind] at ran
      split at ran
      · exact (congrArg Prod.snd ran).symm
      · cases ran
    | custom procedure =>
      rw [definer, Definer.define] at ran
      rcases Action.succeeded_of_bind ran with ⟨_, _, _, ran⟩
      rcases Action.succeeded_of_bind ran with ⟨_, _, called, _⟩
      exact absurd called refuses.not_called
  cases valued : descriptor.value? with
  | none =>
    rw [put, valued] at ran
    exact ⟨descriptor, defined ran, .inl rfl⟩
  | some value =>
    rw [put, valued] at ran
    simp only [Action.run_getStore_bind] at ran
    split at ran
    · next owns =>
      rw [Store.hasOwn_eq_isSome, Option.isSome_iff_exists] at owns
      rcases owns with ⟨existing, owned⟩
      rw [Member.assign, Action.run_getStore_bind, Store.lookup_of_own owned] at ran
      dsimp only at ran
      split at ran
      · rcases Action.succeeded_of_bind ran with ⟨_, _, called, _⟩
        exact absurd called refuses.not_called
      · cases ran
      · cases ran
      · next old writable =>
        rw [if_pos rfl] at ran
        exact ⟨existing.withValue value, (congrArg Prod.snd ran).symm,
          .inr ⟨existing, value, old, owned, writable, rfl, rfl⟩⟩
    · exact ⟨descriptor, defined ran, .inl rfl⟩

theorem Merge.own_of_put (refuses : meaning.Refuses) {plan : Plan} {name : String}
    {descriptor : Descriptor} {value : Value} {later : World σ}
    (known : world.store.hasObject plan.target = true) (valued : descriptor.value? = some value)
    (ran : (put meaning plan name descriptor).run world = (.ok (), later)) :
    ∃ stored, later.store.ownDescriptor? plan.target name = some stored ∧
      stored.value? = some value := by
  rcases stores_of_put refuses ran with ⟨stored, rfl, stores⟩
  refine ⟨stored, Store.ownDescriptor?_storeMember_same _ _ _ _ known, ?_⟩
  rcases stores with rfl | ⟨existing, given, old, _, writable, same, rfl⟩
  · exact valued
  · rw [Descriptor.withValue, writable, ← valued, same]
    rfl

end Refusing

/-! ### Weighing -/

theorem Store.mem_prototypes_of_fronts {source : Value} {table : ObjectId} :
    ∀ {sources : List Value} {store : Store}, source ∈ sources → store.Fronts source table →
      table ∈ (prototypes sources store).1
  | first :: sources, store, member, fronts => by
      rw [prototypes, FirstSeen.mem_ofList, allPrototypes, List.mem_append]
      rcases List.mem_cons.mp member with rfl | member
      · exact .inl fronts.mem_sourcePrototypes
      · have later := fronts.extends (evolves_sourcePrototypes first store).extends
        have contributed := mem_prototypes_of_fronts member later
        rw [prototypes, FirstSeen.mem_ofList] at contributed
        exact .inr contributed

namespace Merge

def weighed (store : Store) (target : ObjectId) (earlier throughThis ownChain : List ObjectId)
    (name : String) (own : Bool) (incoming : ProcedureId) (current : Option Value) : Resolution :=
  match current with
  | some (.procedure existing) =>
      if existing = incoming then
        .incoming
      else
        Rivalry.resolve ⟨name, incoming, existing, own, ownChain⟩ store target earlier throughThis
  | _ => .incoming

variable (plan : Plan)

/-- Two different methods are weighed once the sources so far were asked for their tables. -/
theorem exists_run_weigh (index : Nat) (name : String) (own : Bool) (ownChain : List ObjectId)
    {incoming existing : ProcedureId} (different : existing ≠ incoming) (world : World σ) :
    ∃ (asked : World σ) (earlier throughThis : List ObjectId),
      (weigh plan index name own incoming ownChain (some (.procedure existing))).run world =
        (.ok (Rivalry.resolve ⟨name, incoming, existing, own, ownChain⟩ asked.store plan.target
          earlier throughThis), asked) ∧
      Store.ChangesWithin .nowhere world.store asked.store ∧
      ∀ source ∈ plan.sources.take (index + 1), ∀ table, world.store.Fronts source table →
        table ∈ throughThis := by
  have follows : Action.Follows (Passage.within σ .nowhere)
      (weigh plan index name own incoming ownChain (some (.procedure existing))) :=
    follows_weigh (asks_within .nowhere) index name own incoming ownChain _
  have changes := follows world
  have asked := Store.evolves_prototypes (plan.sources.take index) world.store
  rw [weigh, if_neg different] at changes ⊢
  refine ⟨_, _, _, rfl, changes, fun source member table fronts => ?_⟩
  exact Store.mem_prototypes_of_fronts member (fronts.extends asked.extends)

/-- A destination resolves a name to another method or to none but the incoming one. -/
theorem rival_or_alone (current : Option Value) (incoming : ProcedureId) :
    (∃ existing, existing ≠ incoming ∧ current = some (.procedure existing)) ∨
      ∀ existing, current = some (.procedure existing) → existing = incoming := by
  by_cases rivals : ∃ existing, existing ≠ incoming ∧ current = some (.procedure existing)
  · exact .inl rivals
  · refine .inr fun existing resolved => Decidable.byContradiction fun different => ?_
    exact rivals ⟨existing, different, resolved⟩

theorem weigh_of_no_rival (index : Nat) (name : String) (own : Bool) (incoming : ProcedureId)
    (ownChain : List ObjectId) {current : Option Value}
    (alone : ∀ existing, current = some (.procedure existing) → existing = incoming) :
    (weigh plan index name own incoming ownChain current : Action σ Resolution) =
      pure .incoming := by
  unfold weigh
  split
  · next existing => rw [if_pos (alone existing rfl)]
  · rfl

theorem weighed_of_no_rival {store : Store} {target : ObjectId}
    {earlier throughThis ownChain : List ObjectId} {name : String} {own : Bool}
    {incoming : ProcedureId} {current : Option Value}
    (alone : ∀ existing, current = some (.procedure existing) → existing = incoming) :
    weighed store target earlier throughThis ownChain name own incoming current = .incoming := by
  unfold weighed
  split
  · next existing => rw [if_pos (alone existing rfl)]
  · rfl

theorem run_weigh (index : Nat)
    (types : world.store.AllTypes (plan.sources.take (index + 1))) (name : String) (own : Bool)
    (incoming : ProcedureId) (ownChain : List ObjectId) (current : Option Value) :
    (weigh plan index name own incoming ownChain current).run world =
      (.ok (weighed world.store plan.target
        (Store.prototypes (plan.sources.take index) world.store).1
        (Store.prototypes (plan.sources.take (index + 1)) world.store).1
        ownChain name own incoming current), world) := by
  have earlier : world.store.AllTypes (plan.sources.take index) := fun source member =>
    types source (List.take_subset_take_left _ (Nat.le_succ index) member)
  rcases current with _ | value
  · rfl
  · cases value with
    | procedure existing =>
        unfold weigh weighed
        by_cases same : existing = incoming
        · simp only [if_pos same, Action.run_pure]
        · simp only [if_neg same, Action.run_edit_bind, Action.run_getStore_bind, Action.run_pure,
            Store.prototypes_of_types types, Store.prototypes_of_types earlier]
    | _ => rfl

/-- Rivalries are resolved alike where the same methods are required and inherited, and where the
chains of tables hold the same. -/
theorem resolve_congr {store other : Store} {target : ObjectId} {name : String}
    (incoming existing : ProcedureId) (own : Bool)
    {ownChain earlier throughThis ownChainToo earlierToo throughThisToo : List ObjectId}
    (required : ∀ method, other.isRequired method = store.isRequired method)
    (inherits : ∀ method, other.inherits target name method = store.inherits target name method)
    (sameOwn : ∀ method,
      other.chainHolds ownChainToo name method = store.chainHolds ownChain name method)
    (sameEarlier : ∀ method,
      other.chainHolds earlierToo name method = store.chainHolds earlier name method)
    (sameThrough : ∀ method,
      other.chainHolds throughThisToo name method = store.chainHolds throughThis name method) :
    Rivalry.resolve ⟨name, incoming, existing, own, ownChainToo⟩ other target earlierToo
        throughThisToo =
      Rivalry.resolve ⟨name, incoming, existing, own, ownChain⟩ store target earlier
        throughThis := by
  unfold Rivalry.resolve Rivalry.overridesExisting
  simp only [required, inherits, sameOwn, sameEarlier, sameThrough]

/-! ### Methods of types -/

/-- Whether the merge of a type runs the hook of the method under a name, in a
destination that resolves the name to `current`. -/
def installs (store : Store) (table : ObjectId) (ownChain : List ObjectId) (name : String)
    (current : Option Value) : Bool :=
  match store.lookup table name with
  | none => false
  | some (owner, descriptor) =>
      match descriptor.method? with
      | none => false
      | some method =>
          (store.procedure method).hook.isSome &&
            (owner == table && !(current.any (store.chainHolds ownChain name)))

def hookUnder? (store : Store) (table : ObjectId) (name : String) : Option Hook :=
  ((store.descriptor? table name).bind Descriptor.method?).bind fun method =>
    (store.procedure method).hook

theorem exists_of_installs {store : Store} {table : ObjectId} {ownChain : List ObjectId}
    {name : String} {current : Option Value}
    (runs : installs store table ownChain name current = true) :
    ∃ owner descriptor incoming hook,
      store.lookup table name = some (owner, descriptor) ∧
      descriptor.method? = some incoming ∧ (store.procedure incoming).hook = some hook ∧
      hookUnder? store table name = some hook := by
  unfold installs at runs
  split at runs
  · cases runs
  · next owner descriptor found =>
    split at runs
    · cases runs
    · next incoming method =>
      rw [Bool.and_eq_true] at runs
      rcases Option.isSome_iff_exists.mp runs.1 with ⟨hook, hooked⟩
      refine ⟨owner, descriptor, incoming, hook, found, method, hooked, ?_⟩
      rw [hookUnder?, Store.descriptor?, found, Option.map_some, Option.bind_some, method,
        Option.bind_some, hooked]

theorem weighed_of_overrides {store : Store} {target : ObjectId}
    {earlier throughThis ownChain : List ObjectId} {name : String}
    {incoming existing : ProcedureId} (implemented : store.isRequired incoming = false)
    (overrides : store.chainHolds ownChain name (.procedure existing) = true) :
    weighed store target earlier throughThis ownChain name true incoming
      (some (.procedure existing)) = .incoming := by
  simp [weighed, Rivalry.resolve, Rivalry.overridesExisting, implemented, overrides]

theorem weighed_of_no_method {store : Store} {target : ObjectId}
    {earlier throughThis ownChain : List ObjectId} {name : String} {own : Bool}
    {incoming : ProcedureId} {current : Option Value}
    (value : current.bind Value.asProcedure = none) :
    weighed store target earlier throughThis ownChain name own incoming current = .incoming := by
  unfold weighed
  split
  · cases value
  · rfl

/-- A method that its source inherits gives way to any other one that is implemented. -/
theorem weighed_of_inherited {store : Store} {target : ObjectId}
    {earlier throughThis ownChain : List ObjectId} {name : String}
    {incoming existing : ProcedureId} (implementing : store.isRequired existing = false)
    (inherited : store.chainHolds throughThis name (.procedure incoming) = true) :
    weighed store target earlier throughThis ownChain name false incoming
        (some (.procedure existing)) =
      if existing = incoming then .incoming else .keepDestination := by
  simp [weighed, Rivalry.resolve, implementing, inherited]

def carryOut (name : String) (descriptor : Descriptor)
    (incoming : ProcedureId) (held : List Conflict) : Resolution → Action σ (List Conflict)
  | .incoming => do
      put meaning plan name descriptor
      return held
  | .keepDestination => do
      match (← Action.getStore).descriptor? plan.target name with
      | some kept => put meaning plan name kept
      | none => pure ()
      return held
  | .conflict existing => do
      put meaning plan name descriptor
      return holdConflict ⟨name, existing, incoming⟩ held

/-- A method whose hook runs is installed, which settles the conflict under its name. -/
theorem run_mixMethod_of_installs {name : String} {table owner : ObjectId}
    {descriptor : Descriptor} {incoming : ProcedureId} {hook : Hook} (index : Nat)
    (ownChain : List ObjectId) (held : List Conflict)
    (found : world.store.lookup table name = some (owner, descriptor))
    (method : descriptor.method? = some incoming)
    (hooked : (world.store.procedure incoming).hook = some hook)
    (runs : installs world.store table ownChain name
      (world.store.dataValue? plan.target name) = true) :
    (mixMethod meaning plan index table ownChain name held).run world =
      (meaning.install hook plan.target name >>= fun _ =>
        pure (settleConflict name held)).run world := by
  rw [installs, found] at runs
  simp only [method, hooked, Option.isSome_some, Bool.true_and] at runs
  rw [mixMethod, Action.run_getStore_bind, found]
  simp only [method, hooked, runs]

theorem run_mixMethod_of_value {name : String} {table owner : ObjectId} {descriptor : Descriptor}
    (index : Nat) (ownChain : List ObjectId) (held : List Conflict)
    (found : world.store.lookup table name = some (owner, descriptor))
    (value : descriptor.method? = none) :
    (mixMethod meaning plan index table ownChain name held).run world =
      (put meaning plan name descriptor >>= fun _ => pure held).run world := by
  rw [mixMethod, Action.run_getStore_bind, found]
  simp only [value]

theorem run_mixMethod_weighs {name : String} {table owner : ObjectId} {descriptor : Descriptor}
    {incoming : ProcedureId} (index : Nat) (ownChain : List ObjectId) (held : List Conflict)
    (found : world.store.lookup table name = some (owner, descriptor))
    (method : descriptor.method? = some incoming)
    (silent : installs world.store table ownChain name
      (world.store.dataValue? plan.target name) = false) :
    (mixMethod meaning plan index table ownChain name held).run world =
      (weigh plan index name (owner == table) incoming ownChain
          (world.store.dataValue? plan.target name) >>=
        carryOut meaning plan name descriptor incoming held).run world := by
  rw [installs, found] at silent
  simp only [method] at silent
  rw [mixMethod, Action.run_getStore_bind, found]
  simp only [method]
  split
  · next hook hooked runs =>
      rw [hooked, runs] at silent
      cases silent
  · congr 2
    funext resolution
    cases resolution <;> rfl

theorem run_mixMethod_of_silent {name : String} {table owner : ObjectId} {descriptor : Descriptor}
    {incoming : ProcedureId} (index : Nat) (ownChain : List ObjectId) (held : List Conflict)
    (types : world.store.AllTypes (plan.sources.take (index + 1)))
    (found : world.store.lookup table name = some (owner, descriptor))
    (method : descriptor.method? = some incoming)
    (silent : installs world.store table ownChain name
      (world.store.dataValue? plan.target name) = false) :
    (mixMethod meaning plan index table ownChain name held).run world =
      (carryOut meaning plan name descriptor incoming held
        (weighed world.store plan.target
          (Store.prototypes (plan.sources.take index) world.store).1
          (Store.prototypes (plan.sources.take (index + 1)) world.store).1
          ownChain name (owner == table) incoming
          (world.store.dataValue? plan.target name))).run world := by
  rw [run_mixMethod_weighs meaning plan index ownChain held found method silent,
    Action.run_bind_of_ok _ (run_weigh plan index types ..)]

abbrev chainOf (composite : Composite) : List ObjectId :=
  FirstSeen.ofList composite.bases.prototypes

theorem run_mixSource_of_type (index : Nat) (held : List Conflict) {type : ProcedureId}
    {composite : Composite} (found : world.store.composite? type = some composite) :
    (mixSource meaning plan index (.procedure type) held).run world =
      ((world.store.enumerableNames composite.prototype).foldlM
        (fun held name =>
          mixMethod meaning plan index composite.prototype (chainOf composite) name held)
        held).run world := by
  rw [mixSource, Action.run_edit_bind, Store.prototypeOf_of_composite? found,
    Action.run_edit_bind, Store.prototypes_of_type found, Action.run_getStore_bind]

/-! ### Members of bare tables -/

def settledBy (owner table : ObjectId) (name : String) (held : List Conflict) : List Conflict :=
  if owner = table then settleConflict name held else held

theorem settledBy_self (table : ObjectId) (name : String) (held : List Conflict) :
    settledBy table table name held = settleConflict name held := if_pos rfl

theorem settledBy_nil (owner table : ObjectId) (name : String) :
    settledBy owner table name [] = [] := by
  unfold settledBy
  split <;> rfl

section BareTables

variable {name : String} {table owner : ObjectId} {descriptor : Descriptor}
  {method : ProcedureId} (held : List Conflict)
  (found : world.store.lookup table name = some (owner, descriptor))

include found

theorem run_mixMember_of_value (simple : descriptor.method? = none) :
    (mixMember meaning plan table name held).run world =
      (put meaning plan name descriptor >>= fun _ =>
        pure (settledBy owner table name held)).run world := by
  rw [mixMember, Action.run_getStore_bind, found]
  simp only [simple]
  rfl

variable (holds : descriptor.method? = some method)

include holds

/-- A decorator in a bare table is installed, which settles the conflict under its name. -/
theorem run_mixMember_of_hook {hook : Hook}
    (hooked : (world.store.procedure method).hook = some hook) :
    (mixMember meaning plan table name held).run world =
      (meaning.install hook plan.target name >>= fun _ =>
        pure (settleConflict name held)).run world := by
  rw [mixMember, Action.run_getStore_bind, found]
  simp only [holds, hooked]

/-- A method of a bare table is put, unless it is a requirement and there is something. -/
theorem run_mixMember_of_unhooked (unhooked : (world.store.procedure method).hook = none) :
    (mixMember meaning plan table name held).run world =
      if world.store.isRequired method && world.store.has plan.target name then (.ok held, world)
      else (put meaning plan name descriptor >>= fun _ =>
        pure (settledBy owner table name held)).run world := by
  rw [mixMember, Action.run_getStore_bind, found]
  simp only [holds, unhooked]
  split <;> rfl

end BareTables

theorem run_mixin_of_table (target table : ObjectId) (definer : Definer) (world : World σ) :
    (mixin meaning target [.object table] definer).run world =
      ((world.store.enumerableNames table).foldlM
        (fun held name => mixMember meaning ⟨target, definer, [.object table]⟩ table name held)
        []).run world := by
  simp only [mixin, mixSources, bind_pure]
  rw [mixSource, Action.run_getStore_bind]

end Merge

end TraitComposition
