import TraitComposition.Proofs.Machine.Operations

/-!
The machine evolves stores and does nothing else to them. Each operation is a sequence
of steps provided that the calls, installs and entries of user code it makes are, whatever
user code asks for.
-/
namespace TraitComposition

/-! ### Compound changes of a store -/

namespace Store

theorem evolves_sourcePrototypes (source : Value) (store : Store) :
    store.Evolves (sourcePrototypes source store).2 :=
  (Quiet.of_sourcePrototypes source store).evolves

theorem evolves_allPrototypes (sources : List Value) (store : Store) :
    store.Evolves (allPrototypes sources store).2 :=
  (Quiet.of_allPrototypes sources store).evolves

theorem evolves_prototypes (sources : List Value) (store : Store) :
    store.Evolves (prototypes sources store).2 :=
  (Quiet.of_prototypes sources store).evolves

theorem evolves_reportAll (observer : Observer) (conflicts : List Conflict) (store : Store) :
    store.Evolves (conflicts.foldl
      (fun store conflict => store.report (.conflict observer conflict)) store) := by
  induction conflicts generalizing store with
  | nil => exact .refl store
  | cons conflict conflicts induction =>
      exact (Evolves.of_step (.report store (.conflict observer conflict))).trans (induction _)

end Store

variable {σ α : Type}

/-! ### Actions -/

abbrev Action.Evolving (action : Action σ α) : Prop :=
  action.Follows (Passage.evolution σ)

namespace Action

private theorem evolving_edit {change : Store → α × Store}
    (evolves : ∀ store : Store, store.Evolves (change store).2) :
    (edit change : Action σ α).Evolving :=
  fun world => ⟨evolves world.store, List.prefix_refl _⟩

private theorem evolving_change {update : Store → Store}
    (evolves : ∀ store : Store, store.Evolves (update store)) :
    (change update : Action σ Unit).Evolving :=
  fun world => ⟨evolves world.store, List.prefix_refl _⟩

private theorem evolving_addProcedure {procedure : Procedure} (tableless : procedure.table = none) :
    (edit (·.addProcedure procedure) : Action σ ProcedureId).Evolving :=
  evolving_edit fun store => .of_step (.addProcedure store tableless)

end Action

open TraitComposition.Action

/-- What calls, installs and entries of user code must not do beyond letting the store
evolve. -/
structure Meaning.Evolving (meaning : Meaning σ) : Prop where
  call : ∀ procedure receiver arguments, (meaning.call procedure receiver arguments).Evolving
  install : ∀ hook target name, (meaning.install hook target name).Evolving
  enter : ∀ code entry, (meaning.enter code entry).Evolving

/-! ### Weaving -/

theorem Layer.evolving_weave {meaning : Meaning σ} (evolving : meaning.Evolving)
    (reference : LayerId) (base : Option ProcedureId) :
    (weave meaning reference base).Evolving :=
  follows_weave evolving.enter (fun plain => evolving_addProcedure plain.table) reference base

theorem Advice.evolving_createDecorator (advice : Advice) :
    (advice.createDecorator : Action σ ProcedureId).Evolving := by
  apply Follows.bind (evolving_edit fun store => .of_step (.addLayer store _))
  intro layer
  apply Follows.bind (evolving_addProcedure rfl)
  intro direct
  exact evolving_addProcedure rfl

theorem Passage.bears_evolution : (Passage.evolution σ).Bears fun _ => True where
  quiet change := ⟨change.evolves, List.prefix_refl _⟩
  state world _ := ⟨.refl world.store, List.prefix_refl _⟩
  code world _ _ := ⟨.refl world.store, by simp [World.addCode]⟩
  insert _ := evolving_change fun store => .of_step (.insert store _ _ _)
  report entry := evolving_change fun store => .of_step (.report store entry)
  procedure plain := evolving_addProcedure plain.table
  hook _ _ := evolving_edit fun store => .of_step (.addProcedure store rfl)
  mark _ := evolving_edit fun store => .of_step (.addProcedure store rfl)
  type composer own := evolving_edit fun store => .of_step (.addComposite store composer own)
  decorator := Advice.evolving_createDecorator
  build enters weave := weave.follows_build enters fun _ => evolving_addProcedure
  standalone enters layer :=
    Follows.bind (Layer.follows_weave enters (fun plain => evolving_addProcedure plain.table) _ _)
      fun _ => Follows.bind (evolving_change fun store => .of_step (.setStandalone store _ _))
        fun _ => Follows.pure _

theorem Passage.trusts_evolution : (Passage.evolution σ).Trusts fun _ => True :=
  fun _ _ reached => reached (Program.keepsTo_of_all (fun _ => trivial) _)

/-! ### Operations -/

theorem Sources.evolving_delegate (base : Value) :
    (Sources.delegate base : Action σ ObjectId).Evolving :=
  Passage.bears_evolution.follows_delegate base

theorem Composer.evolving_report (composer : Composer) (conflicts : List Conflict) :
    (composer.report conflicts : Action σ Unit).Evolving :=
  Passage.bears_evolution.follows_report composer conflicts

section Operations

variable {meaning : Meaning σ} (evolving : meaning.Evolving)

include evolving

theorem Meaning.Evolving.within : meaning.Within (Passage.evolution σ) where
  call := evolving.call
  install := evolving.install
  enter := evolving.enter

theorem Definer.evolving_ofValue (value : Value) : (ofValue meaning value).Evolving :=
  Passage.BearsLibrary.follows_definerOfValue evolving.within value

theorem Merge.respects_evolution (plan : Plan) (name : String) :
    Respects (Passage.evolution σ) meaning plan name :=
  Passage.bears_evolution.respects evolving.within plan name

theorem evolving_mixin (target : ObjectId) (sources : List Value) (definer : Definer) :
    (mixin meaning target sources definer).Evolving :=
  Passage.bears_evolution.follows_mixin evolving.within target sources definer

theorem Composer.evolving_composeTable (composer : Composer) (base : Value)
    (sources : List Value) : (composer.composeTable meaning base sources).Evolving :=
  Passage.bears_evolution.follows_composeTable evolving.within composer base sources

theorem Composer.evolving_compose (composer : Composer) (sources : List Value) :
    (composer.compose meaning sources).Evolving :=
  Passage.bears_evolution.follows_compose evolving.within composer sources

theorem Composite.evolving_absorb (target returned : ObjectId) :
    (absorb meaning target returned).Evolving :=
  Passage.bears_evolution.follows_absorb evolving.within target returned

theorem Composite.evolving_materialize (target : ObjectId) :
    (materialize meaning target).Evolving :=
  Passage.bears_evolution.follows_materialize evolving.within target

end Operations

namespace Meaning

private theorem Within.evolving {meaning : Meaning σ}
    (within : meaning.Within (Passage.evolution σ)) :
    meaning.Evolving where
  call := within.call
  install := within.install
  enter := within.enter

theorem Evolving.step {meaning : Meaning σ} (evolving : meaning.Evolving) :
    meaning.step.Evolving :=
  (Passage.bears_evolution.within_step Passage.trusts_evolution evolving.within).evolving

theorem evolving_ofBudget (budget : Nat) : (ofBudget budget : Meaning σ).Evolving :=
  (Passage.bears_evolution.within_ofBudget Passage.trusts_evolution budget).evolving

end Meaning

/-! ### User code -/

namespace World

private theorem code_of_leads {before after : World σ}
    (leads : (Passage.evolution σ).leads before after)
    {code : CodeId} (written : code.index < before.codes.size) :
    after.code code = before.code code := by
  rcases leads.2 with ⟨more, equal⟩
  rw [World.code, World.code, Array.getD_eq_getD_getElem?, Array.getD_eq_getD_getElem?,
    ← Array.getElem?_toList, ← Array.getElem?_toList, ← equal, List.getElem?_append_left written]

section Code

variable {start now : World σ} {procedure : ProcedureId} {code : CodeId}
  (body : (start.store.procedure procedure).body = .code code)
  (written : code.index < start.codes.size) (leads : (Passage.evolution σ).leads start now)

include body written leads

theorem run_call_of_code_of_nesting (inner : Nat) (receiver : Value) (arguments : List Value) :
    ((Meaning.ofBudget (inner + 2)).call procedure receiver arguments).run now =
      ((start.code code (.call receiver arguments)).run (.ofBudget inner)).run now := by
  have bodyNow := leads.1.extends.body_eq_of_ne body (by intro required; cases required)
  have same := code_of_leads leads written
  rw [Meaning.ofBudget_succ, Meaning.step, Action.run_getStore_bind, Procedure.call, bodyNow]
  dsimp only
  rw [Meaning.ofBudget_succ, Meaning.step, Action.run_bind_of_ok _ (Action.run_get now), same]

/-- Calling user code fails at once if there is no nesting left for it, and otherwise runs it. -/
theorem run_call_of_code (budget : Nat) (receiver : Value) (arguments : List Value) :
    (∃ fault, ((Meaning.ofBudget budget).call procedure receiver arguments).run now =
        (.error fault, now)) ∨
      ∃ inner, ((Meaning.ofBudget budget).call procedure receiver arguments).run now =
        ((start.code code (.call receiver arguments)).run (.ofBudget inner)).run now := by
  have bodyNow := leads.1.extends.body_eq_of_ne body (by intro required; cases required)
  rcases budget with _ | _ | inner
  · exact .inl ⟨_, rfl⟩
  · rw [Meaning.ofBudget_succ, Meaning.step, Action.run_getStore_bind, Procedure.call, bodyNow]
    exact .inl ⟨_, rfl⟩
  · exact .inr ⟨inner, run_call_of_code_of_nesting body written leads inner receiver arguments⟩

end Code

end World

end TraitComposition
