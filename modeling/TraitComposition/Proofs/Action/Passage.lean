import TraitComposition.Proofs.Action.Running
import TraitComposition.Proofs.Store.Regions

/-!
Passages: relations between a world and a later one that hold of standing still and
that can be continued. What every single request respects, every program respects, so
a passage is checked once for each operation and then holds of everything that runs.
-/
namespace TraitComposition

structure Passage (σ : Type) where
  leads : World σ → World σ → Prop
  refl : ∀ world, leads world world
  trans : ∀ {first second third}, leads first second → leads second third → leads first third

namespace Action

variable {σ α β : Type} {passage : Passage σ}

def Follows (passage : Passage σ) (action : Action σ α) : Prop :=
  ∀ world, passage.leads world (action.run world).2

namespace Follows

theorem pure (answer : α) : Follows passage (Pure.pure answer : Action σ α) :=
  fun world => passage.refl world

theorem throw (fault : Fault) : Follows passage (MonadExcept.throw fault : Action σ α) :=
  fun world => passage.refl world

theorem ofExcept (result : Except Fault α) : Follows passage (Action.ofExcept result) := by
  intro world
  rw [run_ofExcept]
  exact passage.refl world

theorem getStore : Follows passage (Action.getStore : Action σ Store) :=
  fun world => passage.refl world

theorem bind {action : Action σ α} {next : α → Action σ β} (first : Follows passage action)
    (rest : ∀ answer, Follows passage (next answer)) : Follows passage (action >>= next) := by
  intro world
  have reached := first world
  rw [run_bind]
  rcases ran : action.run world with ⟨fault | answer, later⟩
  · simpa only [ran] using reached
  · rw [ran] at reached
    exact passage.trans reached (rest answer later)

theorem wider {other : Passage σ} {action : Action σ α} (follows : Follows passage action)
    (wider : ∀ before after, passage.leads before after → other.leads before after) :
    Follows other action :=
  fun world => wider _ _ (follows world)

theorem getStore_bind {next : Store → Action σ β}
    (rest : ∀ world, passage.leads world ((next world.store).run world).2) :
    Follows passage (Action.getStore >>= next) :=
  rest

theorem outcome {action : Action σ α} (follows : Follows passage action) :
    Follows passage (Action.outcome action) :=
  follows

theorem naming {action : Action σ α} (name : String) (follows : Follows passage action) :
    Follows passage (Action.naming name action) :=
  follows

theorem foldlM {next : β → α → Action σ β}
    (each : ∀ state item, Follows passage (next state item)) :
    ∀ (items : List α) (state : β), Follows passage (items.foldlM next state)
  | [], state => pure state
  | item :: items, state => by
      rw [List.foldlM_cons]
      exact bind (each state item) fun later => foldlM each items later

theorem forM {next : α → Action σ PUnit} (each : ∀ item, Follows passage (next item)) :
    ∀ items : List α, Follows passage (items.forM next)
  | [] => pure PUnit.unit
  | item :: items => bind (each item) fun _ => forM each items

end Follows

end Action

def Passage.anywhere (σ : Type) : Passage σ where
  leads _ _ := True
  refl _ := trivial
  trans _ _ := trivial

/-! ### Passages of stores -/

def Passage.evolution (σ : Type) : Passage σ where
  leads before after :=
    before.store.Evolves after.store ∧ before.codes.toList <+: after.codes.toList
  refl world := ⟨.refl world.store, List.prefix_refl _⟩
  trans start rest := ⟨start.1.trans rest.1, start.2.trans rest.2⟩

def Passage.within (σ : Type) (region : Store.Region) : Passage σ where
  leads before after := Store.ChangesWithin region before.store after.store
  refl world := .refl region world.store
  trans start rest := start.trans rest

end TraitComposition
