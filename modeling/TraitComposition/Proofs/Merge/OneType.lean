import TraitComposition.Proofs.Merge.Weighing
import TraitComposition.Proofs.Store.Confinement

/-!
Merging a type into a destination, name by name. A name that the destination does not own
yet is decided by what the destination inherits under it, by what the type holds under it,
and by whose chain has whose method: one descriptor is stored, and at most one conflict is
held back. If a hook runs instead, it decides; as long as it minds its own name, other
names do not notice.
-/
namespace TraitComposition.Merge

/-! ### Single names -/

def resolution (store : Store) (target table : ObjectId) (chain : List ObjectId)
    (name : String) : Resolution :=
  match store.lookup table name with
  | none => .incoming
  | some (owner, descriptor) =>
      match descriptor.method? with
      | none => .incoming
      | some incoming =>
          weighed store target [] chain chain name (owner == table) incoming
            (store.dataValue? target name)

def contribution (store : Store) (target table : ObjectId) (chain : List ObjectId)
    (name : String) : Descriptor :=
  match resolution store target table chain name with
  | .keepDestination => (store.descriptor? target name).getD default
  | .incoming | .conflict _ => (store.descriptor? table name).getD default

def rivalry? (store : Store) (target table : ObjectId) (chain : List ObjectId)
    (name : String) : Option Conflict :=
  match resolution store target table chain name,
      (store.descriptor? table name).bind Descriptor.method? with
  | .conflict existing, some incoming => some ⟨name, existing, incoming⟩
  | _, _ => none

theorem member_of_rivalry? {store : Store} {target table : ObjectId} {chain : List ObjectId}
    {name : String} {conflict : Conflict}
    (rival : rivalry? store target table chain name = some conflict) : conflict.member = name := by
  unfold rivalry? at rival
  split at rival
  · cases rival
    rfl
  · cases rival

private theorem exists_of_weighed_keepDestination {store : Store} {target : ObjectId}
    {earlier throughThis ownChain : List ObjectId} {name : String} {own : Bool}
    {incoming : ProcedureId}
    (weighing : weighed store target earlier throughThis ownChain name own incoming
      (store.dataValue? target name) = .keepDestination) :
    ∃ kept, store.descriptor? target name = some kept := by
  cases resolved : store.descriptor? target name with
  | none =>
      rw [Store.dataValue?, resolved] at weighing
      cases weighing
  | some kept => exact ⟨kept, rfl⟩

/-! ### Conflicts -/

def holdConflict? : Option Conflict → List Conflict → List Conflict
  | none, held => held
  | some conflict, held => holdConflict conflict held

private theorem mem_holdConflict_iff {conflict other : Conflict} {held : List Conflict}
    (different : other.member ≠ conflict.member) :
    other ∈ holdConflict conflict held ↔ other ∈ held := by
  have apart : other ≠ conflict := fun equal => different (congrArg Conflict.member equal)
  induction held with
  | nil => simp [holdConflict, apart]
  | cons first held induction =>
      unfold holdConflict
      split
      · next same =>
        have apartFirst : other ≠ first := fun equal => different (equal ▸ same)
        simp [apart, apartFirst]
      · simp [induction]

theorem holdConflict_of_fresh (conflict : Conflict) :
    ∀ {held : List Conflict}, (∀ other ∈ held, other.member ≠ conflict.member) →
      holdConflict conflict held = held ++ [conflict]
  | [], _ => rfl
  | other :: held, fresh => by
      have rest := holdConflict_of_fresh conflict fun later member =>
        fresh later (List.mem_cons_of_mem _ member)
      rw [holdConflict, if_neg (fresh other (List.mem_cons_self ..)), rest, List.cons_append]

/-- If nothing is held back under a name yet, what is held back then is the new conflict. -/
theorem mem_holdConflict?_iff {name : String} {rival : Option Conflict} {held : List Conflict}
    (named : ∀ conflict, rival = some conflict → conflict.member = name)
    (fresh : ∀ other ∈ held, other.member ≠ name) {conflict : Conflict}
    (under : conflict.member = name) :
    conflict ∈ holdConflict? rival held ↔ rival = some conflict := by
  have missing : conflict ∉ held := fun member => fresh conflict member under
  cases rival with
  | none => simp [holdConflict?, missing]
  | some other =>
      rw [holdConflict?, holdConflict_of_fresh other (named other rfl ▸ fresh), List.mem_append,
        List.mem_singleton, Option.some.injEq]
      constructor
      · rintro (member | equal)
        · exact absurd member missing
        · exact equal.symm
      · intro equal
        exact .inr equal.symm

private theorem mem_settleConflict_iff {name : String} {conflict : Conflict} {held : List Conflict}
    (different : conflict.member ≠ name) :
    conflict ∈ settleConflict name held ↔ conflict ∈ held := by
  simp [settleConflict, different]

/-! ### One name -/

section OneSource

variable {σ : Type} (meaning : Meaning σ) {world : World σ} (plan : Plan) {type : ProcedureId}
  {composite : Composite} {name : String} (held : List Conflict) (raw : plan.definer = .raw)
  (single : plan.sources = [.procedure type])
  (found : world.store.composite? type = some composite)
  (listed : (world.store.lookup composite.prototype name).isSome = true)
  (unowned : world.store.ownDescriptor? plan.target name = none)

include raw single found listed unowned

/-- Merging a name that the destination does not own stores its contribution and holds
its conflict back. -/
theorem run_mixMethod
    (silent : installs world.store composite.prototype (chainOf composite) name
      (world.store.dataValue? plan.target name) = false) :
    (mixMethod meaning plan 0 composite.prototype (chainOf composite) name held).run world =
      (.ok (holdConflict? (rivalry? world.store plan.target composite.prototype
          (chainOf composite) name) held),
        { world with
          store := world.store.storeMember plan.target name
            (contribution world.store plan.target composite.prototype
              (chainOf composite) name) }) := by
  rcases Option.isSome_iff_exists.mp listed with ⟨⟨owner, descriptor⟩, looked⟩
  have resolved : world.store.descriptor? composite.prototype name = some descriptor := by
    rw [Store.descriptor?, looked, Option.map_some]
  have stored (descriptor : Descriptor) := run_put_of_not_owned meaning plan descriptor raw unowned
  cases method : descriptor.method? with
  | none =>
      have copied : resolution world.store plan.target composite.prototype (chainOf composite)
          name = .incoming := by
        simp only [resolution, looked, method]
      rw [run_mixMethod_of_value meaning plan 0 _ held looked method,
        Action.run_bind_of_ok _ (stored descriptor)]
      simp [contribution, rivalry?, copied, resolved, holdConflict?]
  | some incoming =>
      have types : world.store.AllTypes (plan.sources.take (0 + 1)) := by
        intro source member
        rw [single] at member
        exact ⟨type, composite, List.mem_singleton.mp member, found⟩
      have outcome : resolution world.store plan.target composite.prototype (chainOf composite)
          name = weighed world.store plan.target [] (chainOf composite) (chainOf composite) name
            (owner == composite.prototype) incoming
            (world.store.dataValue? plan.target name) := by
        simp only [resolution, looked, method]
      rw [run_mixMethod_of_silent meaning plan 0 _ held types looked method silent, single]
      simp only [List.take_succ_cons, List.take_zero, Store.prototypes_of_type found]
      rw [show (Store.prototypes [] world.store).1 = [] from rfl, ← outcome]
      cases weighing : resolution world.store plan.target composite.prototype
        (chainOf composite) name with
      | incoming =>
          rw [carryOut, Action.run_bind_of_ok _ (stored descriptor)]
          simp [contribution, rivalry?, weighing, resolved, holdConflict?]
      | conflict existing =>
          rw [carryOut, Action.run_bind_of_ok _ (stored descriptor)]
          simp [contribution, rivalry?, weighing, resolved, method, holdConflict?]
      | keepDestination =>
          rcases exists_of_weighed_keepDestination (outcome ▸ weighing) with ⟨kept, keeps⟩
          rw [carryOut, Action.run_getStore_bind, keeps]
          simp only []
          rw [Action.run_bind_of_ok _ (stored kept)]
          simp [contribution, rivalry?, weighing, keeps, holdConflict?]

/-- Merging a name does not concern the others, if a hook that runs minds its own name. -/
theorem run_mixMethod_confined
    (discreet : ∀ hook, hookUnder? world.store composite.prototype name = some hook →
      installs world.store composite.prototype (chainOf composite) name
        (world.store.dataValue? plan.target name) = true →
      ∃ later, (meaning.install hook plan.target name).run world = (.ok (), later) ∧
        Store.Confined plan.target [name] world.store later.store) :
    ∃ left later,
      (mixMethod meaning plan 0 composite.prototype (chainOf composite) name held).run world =
        (.ok left, later) ∧
      Store.Confined plan.target [name] world.store later.store ∧
      ∀ conflict, conflict.member ≠ name → (conflict ∈ left ↔ conflict ∈ held) := by
  cases runs : installs world.store composite.prototype (chainOf composite) name
      (world.store.dataValue? plan.target name) with
  | true =>
      rcases exists_of_installs runs with
        ⟨owner, descriptor, incoming, hook, looked, method, hooked, under⟩
      rcases discreet hook under runs with ⟨later, installed, confined⟩
      refine ⟨_, later, ?_, confined, fun conflict different => mem_settleConflict_iff different⟩
      rw [run_mixMethod_of_installs meaning plan 0 _ held looked method hooked runs,
        Action.run_bind_of_ok _ installed]
      rfl
  | false =>
      refine ⟨_, _, run_mixMethod meaning plan held raw single found listed unowned runs,
        .of_storeMember _ _ _ _, ?_⟩
      intro conflict different
      cases rival : rivalry? world.store plan.target composite.prototype (chainOf composite)
          name with
      | none => rfl
      | some other =>
          apply mem_holdConflict_iff
          rw [member_of_rivalry? rival]
          exact different

end OneSource

end TraitComposition.Merge
