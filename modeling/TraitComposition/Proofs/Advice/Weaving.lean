import TraitComposition.Proofs.Advice.Onion
import TraitComposition.Proofs.Store.Additions

/-!
Weaving without side effects. If user code that weaves advice leaves alone what is there,
building a weave succeeds, whatever that code answers, and does nothing but add an advised
procedure that carries the weave.
-/
namespace TraitComposition

variable {σ : Type}

private theorem Store.OnlyAdds.of_withProcedures (store : Store) (more : Array Procedure) :
    store.OnlyAdds (store.withProcedures more) where
  toChangesOnly := (Fills.of_withProcedures store more store.nextObject).toChangesOnly
  journal := rfl

/-- Whether advice is woven without side effects: wherever the program gets to from here,
user code that weaves leaves alone what is there. -/
def Advice.Harmless (meaning : Meaning σ) (world : World σ) : Advice → Prop
  | .around weaver _ => ∀ (now : World σ) (base : Option ProcedureId),
      (Passage.evolution σ).leads world now →
      now.store.OnlyAdds ((meaning.enter weaver (.weave base)).run now).2.store
  | .before _ | .after _ => True

private theorem Advice.Harmless.later {meaning : Meaning σ} {world now : World σ} {advice : Advice}
    (harmless : advice.Harmless meaning world) (evolution : (Passage.evolution σ).leads world now) :
    advice.Harmless meaning now := by
  cases advice with
  | around weaver otherwise =>
      exact fun after base reached =>
        harmless after base ((Passage.evolution σ).trans evolution reached)
  | before | after => trivial

structure Weave.Sound (meaning : Meaning σ) (world : World σ) (weave : Weave) : Prop where
  root : ∀ root, weave.root = some root → world.store.hasProcedure root = true
  layers : ∀ reference ∈ weave.layers, ∃ layer, world.store.layer reference = some layer ∧
    layer.advice.Harmless meaning world

/-! ### Layers -/

section Weaving

variable {meaning : Meaning σ} (evolving : meaning.Evolving) {now : World σ}

namespace Layer

private theorem exists_run_weave {reference : LayerId} {layer : Layer}
    (found : now.store.layer reference = some layer)
    (harmless : layer.advice.Harmless meaning now) (base : Option ProcedureId) :
    ∃ woven later, (weave meaning reference base).run now = (.ok woven, later) ∧
      now.store.OnlyAdds later.store := by
  have advice : (now.store.layer reference).map Layer.advice = some layer.advice := by
    rw [found, Option.map_some]
  rw [weave, Action.run_getStore_bind, advice]
  cases kind : layer.advice with
  | before advice => exact ⟨_, _, rfl, .of_addProcedure _ _⟩
  | after advice =>
      cases base with
      | none => exact ⟨_, _, rfl, .refl _⟩
      | some base => exact ⟨_, _, rfl, .of_addProcedure _ _⟩
  | around weaver otherwise =>
      rw [kind] at harmless
      have adds := harmless now base ((Passage.evolution σ).refl now)
      dsimp only
      rw [Action.run_bind, Action.run_outcome]
      rcases ran : (meaning.enter weaver (.weave base)).run now with ⟨fault | answer, later⟩
      all_goals rw [ran] at adds
      · exact ⟨_, _, rfl, adds.trans (.of_addProcedure _ _)⟩
      · cases answer with
        | procedure advised => exact ⟨_, _, rfl, adds⟩
        | _ => exact ⟨_, _, rfl, adds.trans (.of_addProcedure _ _)⟩

include evolving

theorem exists_run_weaveAll :
    ∀ (first : LayerId) (layers : List LayerId) (base : Option ProcedureId) {now : World σ},
      (∀ reference ∈ first :: layers, ∃ layer, now.store.layer reference = some layer ∧
        layer.advice.Harmless meaning now) →
      ∃ woven later, (weaveAll meaning (first :: layers) base).run now =
        (.ok (some woven), later) ∧ now.store.OnlyAdds later.store
  | first, layers, base, now, sound => by
      rcases sound first (List.mem_cons_self ..) with ⟨layer, found, harmless⟩
      rcases exists_run_weave found harmless base with ⟨woven, between, ran, adds⟩
      have evolution := evolving_weave evolving first base now
      rw [ran] at evolution
      rw [weaveAll, Action.run_bind_of_ok _ ran]
      cases layers with
      | nil => exact ⟨woven, between, rfl, adds⟩
      | cons second layers =>
          have rest : ∀ reference ∈ second :: layers, ∃ layer,
              between.store.layer reference = some layer ∧
                layer.advice.Harmless meaning between := by
            intro reference member
            rcases sound reference (List.mem_cons_of_mem _ member) with ⟨layer, found, harmless⟩
            rcases adds.extends_.layer reference layer found with ⟨standalone, kept⟩
            exact ⟨_, kept, harmless.later evolution⟩
          rcases exists_run_weaveAll second layers (some woven) rest with
            ⟨outer, later, ranRest, addsRest⟩
          exact ⟨outer, later, ranRest, adds.trans addsRest⟩

end Layer

namespace Weave

include evolving in
theorem exists_run_build {weave : Weave} (sound : weave.Sound meaning now)
    (layered : weave.layers ≠ []) :
    ∃ woven later, (weave.build meaning).run now = (.ok (some woven), later) ∧
      now.store.OnlyAdds later.store ∧ later.store.hasProcedure woven = true ∧
      (later.store.procedure woven).mark = some (.weave weave) := by
  rcases weave with ⟨root, layers⟩
  cases layers with
  | nil => exact absurd rfl layered
  | cons first layers =>
      rcases Layer.exists_run_weaveAll evolving first layers root sound.layers with
        ⟨inner, between, ran, adds⟩
      let weave : Weave := ⟨root, first :: layers⟩
      have made := weave.procedure_finish (between.store.procedure inner) between.store
      refine ⟨_, _, (Action.run_bind_of_ok _ ran).trans (weave.run_finish inner between),
        adds.trans (.of_withProcedures _ _), ?_, ?_⟩
      · rw [Store.hasProcedure_iff]
        simp [Store.withProcedures, finish]
      · rw [made]

/-! ### Stacks -/

theorem stackRoot_cases (isRequired : ProcedureId → Bool) (below above : Option ProcedureId) :
    stackRoot isRequired below above = below ∨ stackRoot isRequired below above = above := by
  unfold stackRoot
  split
  · split
    · exact .inr rfl
    · exact .inl rfl
  · exact .inl rfl
  · exact .inr rfl

theorem Sound.stack {world : World σ} {weave incoming : Weave} (sound : weave.Sound meaning world)
    (soundToo : incoming.Sound meaning world) :
    (world.store.stackWeaves weave incoming).Sound meaning world where
  root root equal := by
    rcases stackRoot_cases world.store.isRequired weave.root incoming.root with same | same
    · exact sound.root root (same.symm.trans equal)
    · exact soundToo.root root (same.symm.trans equal)
  layers reference member := by
    rcases (mem_layers_stack _).mp member with below | above
    · exact sound.layers reference below
    · exact soundToo.layers reference above

/-- What is stacked depends on the root that is there, which stays a placeholder or none. -/
theorem stackWeaves_eq {weave : Weave} {store later : Store}
    (rooted : ∀ root, weave.root = some root → store.hasProcedure root = true)
    (extends_ : store.Extends later) (incoming : Weave) :
    later.stackWeaves weave incoming = store.stackWeaves weave incoming := by
  rcases weave with ⟨root, layers⟩
  cases root with
  | none => rfl
  | some current =>
      have same := extends_.isRequired (rooted current rfl)
      rcases incoming with ⟨_ | above, more⟩
      · rfl
      · simp only [Store.stackWeaves, Weave.stack, stackRoot, same]

theorem Sound.stackWeaves_eq {world : World σ} {weave : Weave} (sound : weave.Sound meaning world)
    {later : Store} (extends_ : world.store.Extends later) (incoming : Weave) :
    later.stackWeaves weave incoming = world.store.stackWeaves weave incoming :=
  Weave.stackWeaves_eq sound.root extends_ incoming

theorem Sound.later {world now : World σ} {weave : Weave} (sound : weave.Sound meaning world)
    (evolution : (Passage.evolution σ).leads world now) : weave.Sound meaning now where
  root root equal := (evolution.1.extends.procedure root (sound.root root equal)).1
  layers reference member := by
    rcases sound.layers reference member with ⟨layer, found, harmless⟩
    rcases evolution.1.extends.layer reference layer found with ⟨standalone, kept⟩
    exact ⟨_, kept, harmless.later evolution⟩

end Weave

end Weaving

end TraitComposition
