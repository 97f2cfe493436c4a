import TraitComposition.Proofs.Advice.Installing
import TraitComposition.Proofs.Merge.FinalTable

/-!
Machines that shelter all objects. Whatever user code does to members on such a machine is undone,
so what happens to an object is what the library does to it: to put members on it, by itself or
through the hook of a decorator. An object that this happens to keeps all names that it owned, in
their order, and comes to own others after them. A hook that a builder of decorators has made
leaves a member under its name, where there was none.
-/
namespace TraitComposition

variable {σ : Type}

/-! ### Growth of one object -/

namespace Store

theorem mem_ownNames_iff {store : Store} {object : ObjectId} {name : String} :
    name ∈ store.ownNames object ↔
      ∃ descriptor, store.ownDescriptor? object name = some descriptor :=
  MemberTable.mem_names_iff

theorem ownDescriptor?_of_not_mem {store : Store} {object : ObjectId} {name : String}
    (unowned : name ∉ store.ownNames object) : store.ownDescriptor? object name = none :=
  Option.eq_none_iff_forall_ne_some.mpr fun _ owned => unowned (mem_ownNames_iff.mpr ⟨_, owned⟩)

theorem not_mem_ownNames_of_has {store : Store} {object : ObjectId} {name : String}
    (missing : store.has object name = false) : name ∉ store.ownNames object := by
  rw [mem_ownNames_iff, ownDescriptor?_of_has missing]
  rintro ⟨_, ⟨⟩⟩

theorem has_of_mem_ownNames {store : Store} {object : ObjectId} {name : String}
    (owned : name ∈ store.ownNames object) : store.has object name = true := by
  rcases mem_ownNames_iff.mp owned with ⟨_, owned⟩
  exact has_of_own owned

structure Grows (target : ObjectId) (names : String → Prop) (before after : Store) : Prop
    extends ChangesWithin (.object target) before after where
  kept : before.ownNames target <+: after.ownNames target
  gained : ∀ name ∈ after.ownNames target, name ∈ before.ownNames target ∨ names name

namespace Grows

variable {target : ObjectId} {names : String → Prop} {first second third : Store}

theorem refl (target : ObjectId) (names : String → Prop) (store : Store) :
    Grows target names store store where
  toChangesWithin := .refl _ store
  kept := List.prefix_refl _
  gained _ owned := .inl owned

theorem trans (start : Grows target names first second) (rest : Grows target names second third) :
    Grows target names first third where
  toChangesWithin := start.toChangesWithin.trans rest.toChangesWithin
  kept := start.kept.trans rest.kept
  gained name owned := (rest.gained name owned).elim (start.gained name) .inr

private theorem of_keeps (keeps : Keeps (fun _ => True) first second)
    (known : first.hasObject target = true) : Grows target names first second :=
  have same : second.ownNames target = first.ownNames target := by
    rw [ownNames, ownNames, keeps.members target known trivial]
  { toChangesWithin := keeps.within fun _ _ _ => trivial
    kept := same ▸ List.prefix_refl _
    gained := fun name owned => .inl (same ▸ owned) }

private theorem of_storeMember (store : Store) {target : ObjectId}
    (known : store.hasObject target = true)
    {name : String} (inside : names name) (descriptor : Descriptor) :
    Grows target names store (store.storeMember target name descriptor) := by
  have changes : ChangesWithin (.object target) store
      (store.storeMember target name descriptor) :=
    (ChangesWithin.of_storeMember store target name descriptor).mono fun _ _ _ within => within.1
  have members : (store.storeMember target name descriptor).members target =
      (store.members target).insert name descriptor :=
    members_updateMembers_same store target _ known
  by_cases owned : name ∈ store.ownNames target
  · have same : (store.storeMember target name descriptor).ownNames target =
        store.ownNames target := by
      rw [ownNames, members, MemberTable.names_insert_of_mem descriptor owned, ← ownNames]
    exact ⟨changes, same ▸ List.prefix_refl _, fun other member => .inl (same ▸ member)⟩
  · have added : (store.storeMember target name descriptor).ownNames target =
        store.ownNames target ++ [name] := by
      rw [ownNames, members, MemberTable.names_insert_of_not_mem descriptor owned, ← ownNames]
    refine ⟨changes, ⟨_, added.symm⟩, fun other member => ?_⟩
    rw [added, List.mem_append, List.mem_singleton] at member
    refine member.imp_right ?_
    rintro rfl
    exact inside

section Reading

variable (grows : Grows target names first second)

include grows

theorem known (known : first.hasObject target = true) : second.hasObject target = true :=
  (grows.extends_.object target known).1

variable (rooted : first.Rooted) {name : String}

include rooted

/-- A name that the object does not own afterwards resolves for all objects to what it did. -/
theorem lookup_eq {object : ObjectId} (known : first.hasObject object = true)
    (unowned : name ∉ second.ownNames target) :
    second.lookup object name = first.lookup object name := by
  apply lookup_congr (grows.toChangesWithin.ancestry_eq rooted known)
  intro level member
  by_cases same : level = target
  · rw [same, ownDescriptor?_of_not_mem unowned,
      ownDescriptor?_of_not_mem fun owned => unowned (grows.kept.subset owned)]
  · exact grows.own level name (hasObject_of_mem_ancestry rooted known member) same

theorem descriptor?_eq {object : ObjectId} (known : first.hasObject object = true)
    (unowned : name ∉ second.ownNames target) :
    second.descriptor? object name = first.descriptor? object name := by
  rw [descriptor?, descriptor?, grows.lookup_eq rooted known unowned]

theorem has (known : first.hasObject target = true) (resolved : first.has target name = true) :
    second.has target name = true := by
  by_cases owned : name ∈ second.ownNames target
  · exact has_of_mem_ownNames owned
  · rw [Store.has, grows.lookup_eq rooted known owned]
    exact resolved

end Reading

end Grows

end Store

def Passage.growing (σ : Type) (target : ObjectId) (names : String → Prop) : Passage σ where
  leads before after := before.store.hasObject target = true →
    Store.Grows target names before.store after.store
  refl world _ := .refl target names world.store
  trans start rest known := (start known).trans (rest ((start known).known known))

open TraitComposition.Action (Follows succeeded_of_bind)

section Growing

variable {target : ObjectId} {names : String → Prop}

private theorem Passage.growing_of_keeping (before after : World σ)
    (keeps : (Passage.keeping σ fun _ => True).leads before after) :
    (Passage.growing σ target names).leads before after :=
  fun known => .of_keeps keeps known

private theorem Passage.growing_storeMember {name : String} (inside : names name)
    (descriptor : Descriptor) (world : World σ) :
    (Passage.growing σ target names).leads world
      { world with store := world.store.storeMember target name descriptor } :=
  fun known => .of_storeMember world.store known inside descriptor

theorem Merge.asks_growing : Asks (Passage.growing σ target names) :=
  fun procedure => Follows.wider (asks_keeping procedure) Passage.growing_of_keeping

theorem Merge.respects_growing {budget : Nat} {plan : Plan} {name : String}
    (inside : names name) :
    Respects (Passage.growing σ plan.target names) (.sheltering (fun _ => True) budget) plan
      name :=
  respects_sheltering _ Passage.growing_of_keeping (Passage.growing_storeMember inside) budget

end Growing

/-! ### Hooks of decorators that are built -/

/-- Whether a hook is one that a builder of decorators makes: that of advice, which weaves
something, of a patch, or of an alias. -/
def Hook.Built : Hook → Prop
  | .weave advised => advised ≠ {}
  | .patch _ | .aliased .. => True
  | .code _ => False

instance : DecidablePred Hook.Built
  | .weave advised => inferInstanceAs (Decidable (advised ≠ {}))
  | .patch _ | .aliased .. => .isTrue trivial
  | .code _ => .isFalse id

section Builders

variable {meaning : Meaning σ} (world : World σ)

theorem Advice.built_of_createDecorator (advice : Advice) :
    ∃ decorator later hook, (advice.createDecorator).run world = (.ok decorator, later) ∧
      (later.store.procedure decorator).hook = some hook ∧ hook.Built := by
  refine ⟨_, _, .weave (.single ⟨world.store.layers.size⟩), rfl, ?_, fun empty => ?_⟩
  · exact congrArg Procedure.hook (Store.procedure_addProcedure_self _ _)
  · cases empty

private theorem Decorator.hook_of_create (hook : Hook) (direct : Option ProcedureId) :
    ∃ decorator later, (create hook direct).run world = (.ok decorator, later) ∧
      (later.store.procedure decorator).hook = some hook :=
  ⟨_, _, rfl, congrArg Procedure.hook (Store.procedure_addProcedure_self _ _)⟩

theorem Decorator.built_of_createAlias (source : AliasSource) (member : Option String) :
    ∃ decorator later hook, (createAlias source member).run world = (.ok decorator, later) ∧
      (later.store.procedure decorator).hook = some hook ∧ hook.Built := by
  have made (captured : Option Descriptor) (world : World σ) : ∃ decorator later hook,
      (create (.aliased source member captured) none).run world = (.ok decorator, later) ∧
        (later.store.procedure decorator).hook = some hook ∧ hook.Built := by
    rcases hook_of_create world (.aliased source member captured) none with
      ⟨decorator, later, ran, hooked⟩
    exact ⟨decorator, later, _, ran, hooked, trivial⟩
  unfold createAlias
  split
  · rw [Action.run_edit_bind]
    exact made _ _
  · exact made _ _

theorem Weave.built_of_build {weave : Weave} {woven : ProcedureId} {later : World σ}
    (ran : (weave.build meaning).run world = (.ok (some woven), later)) :
    (later.store.procedure woven).hook = some (.weave weave) ∧ Hook.Built (.weave weave) := by
  have solid : weave ≠ {} := by
    rintro rfl
    cases ran
  rcases succeeded_of_bind ran with ⟨_ | inner, between, _, finished⟩
  · cases finished
  · cases finished.symm.trans (weave.run_finish inner between)
    exact ⟨congrArg Procedure.hook (weave.procedure_finish (between.store.procedure inner)
      between.store), solid⟩

end Builders

namespace Decorator

variable {meaning : Meaning σ} (shelters : meaning.Shelters fun _ => True) {hook : Hook}
  {target : ObjectId} {name : String} {world later : World σ} (rooted : world.store.Rooted)
  (known : world.store.hasObject target = true) (missing : world.store.has target name = false)

include known in
theorem has_of_keeping {action : Action σ Descriptor}
    (keeps : Follows (Passage.keeping σ fun _ => True) action)
    (ran : (action >>= Member.define target name).run world = (.ok (), later)) :
    later.store.has target name = true := by
  rcases succeeded_of_bind ran with ⟨descriptor, between, ranFirst, defined⟩
  have extends_ : world.store.Extends between.store := by
    have keeps := keeps world
    rw [ranFirst] at keeps
    exact keeps.extends_
  exact Store.has_of_own (Member.own_of_define (extends_.object target known).1 defined)

include shelters known

private theorem has_of_installPatch {patch : Patch}
    (ran : (installPatch meaning patch target name).run world = (.ok (), later)) :
    later.store.has target name = true := by
  rw [installPatch, Action.run_getStore_bind] at ran
  dsimp only at ran
  split at ran
  · exact has_of_keeping known (keeping_patched shelters name _ patch) ran
  · exact has_of_keeping known (keeping_complete shelters name patch) ran

include rooted missing in
theorem has_of_installWeave {weave : Weave} (solid : weave ≠ {})
    (ran : (installWeave meaning weave target name).run world = (.ok (), later)) :
    later.store.has target name = true := by
  have nothing : world.store.descriptor? target name = none := by
    rw [Store.has, Option.isSome_eq_false_iff, Option.isNone_iff_eq_none] at missing
    rw [Store.descriptor?, missing]
    rfl
  have begins : world.store.weaveOf (world.store.dataValue? target name) = {} := by
    rw [Store.dataValue?, nothing]
    rfl
  rw [installWeave, Action.run_getStore_bind, begins] at ran
  have stacked : world.store.stackWeaves {} weave ≠ {} :=
    fun empty => solid (Weave.stack_eq_empty_iff.mp empty).2
  rcases Weave.exists_run_build_carrying meaning stacked world with ⟨woven, built, ranBuild, _⟩
  have keeps := Weave.follows_build shelters.enter
    (fun procedure _ => Action.keeping_edit fun store => .of_addProcedure store procedure)
    (world.store.stackWeaves {} weave) world
  rw [ranBuild] at keeps
  have same := keeps.descriptor?_eq rooted known (fun _ _ => trivial) name
  rw [Action.run_bind_of_ok _ ranBuild] at ran
  have unresolved : ∀ descriptor, built.store.descriptor? target name = some descriptor →
      ∃ old, descriptor.shape = .data old true := by
    intro descriptor found
    cases nothing.symm.trans (same.symm.trans found)
  rcases Member.exists_run_assign meaning (.procedure woven) unresolved with ⟨stored, assigned, _⟩
  cases ran.symm.trans assigned
  exact Store.has_of_own (Store.ownDescriptor?_storeMember_same built.store target name stored
    (keeps.extends_.object target known).1)

include rooted missing in
theorem has_of_install (built : hook.Built)
    (ran : (install meaning hook target name).run world = (.ok (), later)) :
    later.store.has target name = true := by
  cases hook with
  | weave weave => exact has_of_installWeave shelters rooted known missing built ran
  | patch patch => exact has_of_installPatch shelters known ran
  | aliased source member captured =>
      rcases own_of_installAlias known ran with ⟨_, _, owned⟩
      exact Store.has_of_own owned
  | code code => exact built.elim

end Decorator

theorem Meaning.has_of_install {budget : Nat} {hook : Hook} {target : ObjectId} {name : String}
    {world later : World σ} (rooted : world.store.Rooted)
    (known : world.store.hasObject target = true)
    (missing : world.store.has target name = false) (built : hook.Built)
    (ran : ((sheltering (fun _ => True) budget).install hook target name).run world =
      (.ok (), later)) :
    later.store.has target name = true := by
  cases budget with
  | zero => cases ran
  | succ budget =>
      exact Decorator.has_of_install (shelters_sheltering _ budget) rooted known missing built ran

/-! ### Where nothing is called -/

/-- What succeeds where nothing is called goes the same way on a machine that shelters objects. -/
theorem Meaning.uncalled_upheldBy_sheltering (kept : ObjectId → Prop) [DecidablePred kept] :
    ∀ budget : Nat, UpheldBy (uncalled budget : Meaning σ) (sheltering kept budget)
  | 0 => upheldBy_exhausted _
  | budget + 1 =>
      { call := fun _ _ _ => .throw _ _
        install := Decorator.upheld_installUnasked (uncalled_upheldBy_sheltering kept budget)
        enter := fun _ _ => .throw _ _ }

theorem harmless_of_uncalled {kept : ObjectId → Prop} [DecidablePred kept] {budget : Nat}
    {world later : World σ} {target : ObjectId} {sources : List Value} {definer : Definer}
    {conflicts : List Conflict}
    (ran : (mixin (.uncalled budget) target sources definer).run world = (.ok conflicts, later)) :
    Harmless kept (fun meaning => mixin meaning target sources definer) budget world :=
  ((Meaning.uncalled_upheldBy_sheltering kept budget).mixin _ _ _ _ _ _ ran).trans
    ((Meaning.upheldBy_uncalled budget).mixin _ _ _ _ _ _ ran).symm

theorem Decorator.harmless_of_uncalled {kept : ObjectId → Prop} [DecidablePred kept] {budget : Nat}
    {world later : World σ} {hook : Hook} {target : ObjectId} {name : String}
    (ran : (installUnasked (.uncalled budget) hook target name).run world = (.ok (), later)) :
    Harmless kept (fun meaning => install meaning hook target name) budget world :=
  (upheld_installUnasked (Meaning.uncalled_upheldBy_sheltering kept budget) _ _ _ _ _ _ ran).trans
    (upheld_installUnasked (Meaning.upheldBy_uncalled budget) _ _ _ _ _ _ ran).symm

end TraitComposition
