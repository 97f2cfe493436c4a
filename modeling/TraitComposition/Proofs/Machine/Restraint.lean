import TraitComposition.Proofs.Machine.Sheltering

/-!
Machines that are kept from changing objects. Whatever a call or an entry of user code does
to the objects that are there, one apart, is undone when it is over; decorators are still
installed the way the machine installs them. Where user code does not change objects anyway,
such a machine does what the one it restrains does.
-/
namespace TraitComposition

/-! ### Members put back -/

namespace Store

def withMembersOf (store before : Store) (target : ObjectId) : Store :=
  { store with
    objects := store.objects.mapIdx fun index object =>
      if before.hasObject ⟨index⟩ = true ∧ ⟨index⟩ ≠ target then
        { object with members := before.members ⟨index⟩ }
      else object }

theorem Keeps.within {kept : ObjectId → Prop} {region : Region} {before after : Store}
    (keeps : before.Keeps kept after) (outside : ∀ object name, ¬region object name → kept object) :
    ChangesWithin region before after where
  extends_ := keeps.extends_
  own object name known apart := by
    rw [ownDescriptor?, ownDescriptor?, keeps.members object known (outside object name apart)]
  rooted := keeps.rooted

end Store

/-! ### Restrained machines -/

variable {σ α : Type}

def Action.restoring (target : ObjectId) (action : Action σ α) : Action σ α := do
  let before ← getStore
  let result ← outcome action
  change (·.withMembersOf before target)
  ofExcept result

def Meaning.restrained (target : ObjectId) : (budget : Nat) → Meaning σ
  | 0 => exhausted
  | budget + 1 =>
      { call := fun procedure receiver arguments =>
          ((ofBudget (budget + 1)).call procedure receiver arguments).restoring target
        install := fun hook object name =>
          Decorator.install (restrained target budget) hook object name
        enter := fun code entry => ((ofBudget (budget + 1)).enter code entry).restoring target }

theorem Meaning.restrained_eq_sheltering (target : ObjectId) :
    ∀ budget : Nat, (restrained target budget : Meaning σ) = sheltering (· ≠ target) budget
  | 0 => rfl
  | budget + 1 => by
      rw [restrained, sheltering, restrained_eq_sheltering target budget]
      rfl

/-- Whether an operation of the machine comes out the same if whatever user code does to
objects, one apart, is undone. -/
def Undisturbed (operation : Meaning σ → Action σ α) (target : ObjectId) (budget : Nat)
    (world : World σ) : Prop :=
  (operation (.restrained target budget)).run world = (operation (.ofBudget budget)).run world

open TraitComposition.Action (Follows UpheldBy)

theorem undisturbed_of_upheld {operation : Meaning σ → Action σ α} {world later : World σ}
    {answer : α} (upheld : ∀ meaning, UpheldBy (operation .exhausted) (operation meaning))
    (ran : (operation .exhausted).run world = (.ok answer, later)) (target : ObjectId)
    (budget : Nat) : Undisturbed operation target budget world := by
  rw [Undisturbed, Meaning.restrained_eq_sheltering]
  exact harmless_of_upheld upheld ran budget

/-! ### Operations of sparing machines -/

section Within

variable {region : Store.Region}

theorem Action.Follows.within_mono {wider : Store.Region} {action : Action σ α}
    (follows : Follows (Passage.within σ region) action)
    (inside : ∀ object name, region object name → wider object name) :
    Follows (Passage.within σ wider) action :=
  fun world => (follows world).mono fun object name _ => inside object name

theorem Action.within_edit {change : Store → α × Store}
    (nowhere : ∀ store : Store, Store.ChangesWithin .nowhere store (change store).2) :
    Follows (Passage.within σ region) (edit change : Action σ α) :=
  fun world => (nowhere world.store).of_nowhere

theorem Passage.within_storeMember {object : ObjectId} {name : String}
    (inside : region object name) (descriptor : Descriptor) (world : World σ) :
    (Passage.within σ region).leads world
      { world with store := world.store.storeMember object name descriptor } :=
  (Store.ChangesWithin.of_storeMember world.store object name descriptor).mono
    fun _ _ _ both => both.1 ▸ both.2 ▸ inside

end Within

structure Meaning.Sparing (target : ObjectId) (meaning : Meaning σ) : Prop where
  call : ∀ procedure receiver arguments,
    Follows (Passage.within σ (.object target)) (meaning.call procedure receiver arguments)
  enter : ∀ code entry,
    Follows (Passage.within σ (.object target)) (meaning.enter code entry)
  install : ∀ hook object name,
    Follows (Passage.within σ (.objects target object)) (meaning.install hook object name)

private theorem Meaning.Shelters.sparing {target : ObjectId} {meaning : Meaning σ}
    (shelters : meaning.Shelters (· ≠ target)) : meaning.Sparing target where
  call procedure receiver arguments world :=
    (shelters.call procedure receiver arguments world).within fun _ _ outside => outside
  enter code entry world := (shelters.enter code entry world).within fun _ _ outside => outside
  install hook object name world :=
    (shelters.install hook object name world).within fun _ _ outside => not_or.mp outside

theorem Meaning.sparing_restrained (target : ObjectId) (budget : Nat) :
    (Meaning.restrained target budget : Meaning σ).Sparing target := by
  rw [restrained_eq_sheltering]
  exact (shelters_sheltering _ budget).sparing

end TraitComposition
