import TraitComposition.Composition
import TraitComposition.Proofs.Machine.Evolution
import TraitComposition.Proofs.Store.NewTable

/-!
The course of a composition: the sources are validated, the table is composed, and
then the type is entered with what the sources contribute to it, which cannot fail.
-/
namespace TraitComposition

variable {σ : Type} (meaning : Meaning σ)

/-! ### Sources -/

private theorem Sources.invalidFrom_eq_none :
    ∀ (position : Nat) {sources : List Value},
      (∀ source ∈ sources, (∃ procedure, source = .procedure procedure) ∨
        ∃ object, source = .object object) →
      invalidFrom position sources = none
  | _, [], _ => rfl
  | position, source :: sources, composable => by
      have rest := invalidFrom_eq_none (position + 1) fun other member =>
        composable other (List.mem_cons_of_mem _ member)
      rcases composable source (List.mem_cons_self ..) with ⟨procedure, rfl⟩ | ⟨object, rfl⟩
      · rw [invalidFrom, rest]
      · rw [invalidFrom, rest]

theorem Sources.validate_eq_ok {sources : List Value} (some_ : sources ≠ [])
    (composable : ∀ source ∈ sources, (∃ procedure, source = .procedure procedure) ∨
      ∃ object, source = .object object) (offset : Nat) :
    validate sources offset = .ok () := by
  have nonempty : sources.isEmpty = false := List.isEmpty_eq_false_iff.mpr some_
  rw [validate, nonempty, invalidFrom_eq_none offset composable]
  rfl

/-! ### Types in first place -/

theorem Sources.run_delegate_of_type {world : World σ} {first : ProcedureId} {base : Composite}
    (found : world.store.composite? first = some base) :
    (Sources.delegate (.procedure first)).run world =
      (.ok world.store.nextObject,
        { world with store := world.store.delegating base.prototype }) := by
  rw [Sources.delegate, Action.run_edit_bind, Store.prototypeOf_of_composite? found]
  rfl

theorem Definer.run_ofValue_of_type (world : World σ) {first : ProcedureId} {base : Composite}
    (found : world.store.composite? first = some base) (raw : base.definer = none) :
    (Definer.ofValue meaning (.procedure first)).run world = (.ok .raw, world) := by
  have definer : world.store.definer? first = none := by
    rw [Store.definer?, found, Option.bind_some, raw]
  rw [Definer.ofValue, Action.run_getStore_bind, definer]
  rfl

theorem Definer.run_ofValue_of_missing {object : ObjectId} {world : World σ}
    (missing : world.store.has object memberName = false) :
    (ofValue meaning (.object object)).run world = (.ok .raw, world) := by
  have unresolved : world.store.lookup object memberName = none := by
    rw [← Option.not_isSome_iff_eq_none, ← Store.has, missing]
    exact Bool.false_ne_true
  rw [ofValue, Member.read, Action.run_bind, Action.run_getStore_bind, Store.descriptor?,
    unresolved]
  rfl

namespace Composer

/-! ### The whole composition -/

theorem composeTable_procedure (composer : Composer) (first : ProcedureId)
    (sources : List Value) :
    composer.composeTable meaning (.procedure first) sources = (do
      let target ← Sources.delegate (.procedure first)
      let definer ← Definer.ofValue meaning (.procedure first)
      composer.report (← mixin meaning target sources definer)
      return target) := rfl

def enterType (composer : Composer) (sources : List Value) (prototype : ObjectId)
    (store : Store) : ProcedureId × Store :=
  let constructors := store.constructors sources
  let (tables, store) := Store.prototypes (chainSources prototype sources) store
  store.addComposite prototype ⟨constructors, FirstSeen.insert tables prototype⟩ composer

theorem run_compose {sources : List Value} (composer : Composer)
    (valid : Sources.validate sources 0 = .ok ()) (world : World σ) :
    (composer.compose meaning sources).run world =
      match (composer.composeTable meaning (sources.headD .undefined) sources.tail).run world with
      | (.error fault, later) => (.error fault, later)
      | (.ok prototype, later) =>
          (.ok (composer.enterType sources prototype later.store).1,
            { later with store := (composer.enterType sources prototype later.store).2 }) := by
  rw [compose, valid]
  change ((composer.composeTable meaning _ _) >>= _).run world = _
  rw [Action.run_bind]
  rcases (composer.composeTable meaning (sources.headD .undefined) sources.tail).run world with
    ⟨fault | prototype, later⟩ <;> rfl

theorem compose_succeeded {meaning : Meaning σ} {composer : Composer} {sources : List Value}
    {world later : World σ} {type : ProcedureId}
    (ran : (composer.compose meaning sources).run world = (.ok type, later)) :
    ∃ prototype merged,
      (composer.composeTable meaning (sources.headD .undefined) sources.tail).run world =
        (.ok prototype, merged) ∧
      type = (composer.enterType sources prototype merged.store).1 ∧
      later = { merged with store := (composer.enterType sources prototype merged.store).2 } := by
  cases valid : Sources.validate sources 0 with
  | error fault =>
      rw [compose, valid] at ran
      cases ran
  | ok _ =>
      rw [run_compose meaning composer valid] at ran
      rcases table : (composer.composeTable meaning (sources.headD .undefined)
        sources.tail).run world with ⟨fault | prototype, merged⟩
      · rw [table] at ran
        cases ran
      · rw [table] at ran
        cases ran
        exact ⟨prototype, merged, rfl, rfl, rfl⟩

theorem composite?_enterType (composer : Composer) (sources : List Value) (prototype : ObjectId)
    (store : Store) :
    (composer.enterType sources prototype store).2.composite?
        (composer.enterType sources prototype store).1 =
      some {
        procedure := (composer.enterType sources prototype store).1
        prototype
        bases := {
          constructors := store.constructors sources
          prototypes := FirstSeen.insert
            (Store.prototypes (chainSources prototype sources) store).1 prototype }
        composer } :=
  Store.composite?_addComposite_self _ _ _ _

private theorem chainSources_of_types {store : Store} (prototype : ObjectId) :
    ∀ {sources : List Value}, store.AllTypes sources → chainSources prototype sources = sources
  | [], _ => rfl
  | source :: sources, types => by
      rcases types source (List.mem_cons_self ..) with ⟨type, composite, rfl, _⟩
      have rest := chainSources_of_types prototype fun other member =>
        types other (List.mem_cons_of_mem _ member)
      cases sources with
      | nil => rfl
      | cons other sources => rw [chainSources, rest]; simp

theorem chainSources_append_object (prototype table : ObjectId) :
    ∀ sources : List Value,
      chainSources prototype (sources ++ [.object table]) = sources ++ [.object prototype]
  | [] => rfl
  | source :: sources => by
      rw [List.cons_append, chainSources, chainSources_append_object prototype table sources]
      · rfl
      · simp

theorem enterType_of_settled (composer : Composer) (sources : List Value) {store : Store}
    (prototype : ObjectId) (settled : store.Settled (chainSources prototype sources)) :
    composer.enterType sources prototype store =
      store.addComposite prototype
        ⟨store.constructors sources,
          FirstSeen.insert (Store.prototypes (chainSources prototype sources) store).1 prototype⟩
        composer := by
  rw [enterType]
  simp only [Store.prototypes_of_settled settled]

theorem enterType_of_types (composer : Composer) {sources : List Value} {store : Store}
    (prototype : ObjectId) (types : store.AllTypes sources) :
    composer.enterType sources prototype store =
      store.addComposite prototype
        ⟨store.constructors sources,
          FirstSeen.insert (Store.prototypes sources store).1 prototype⟩ composer := by
  have chain := chainSources_of_types prototype types
  rw [enterType_of_settled composer sources prototype (chain.symm ▸ types.settled), chain]

end Composer

end TraitComposition
