import TraitComposition.Proofs.Advice.WeaveAlgebra
import TraitComposition.Proofs.Advice.Weaving
import TraitComposition.Proofs.Machine.Sheltering
import TraitComposition.Proofs.Machine.Uncalled
import TraitComposition.Proofs.Merge.Weighing

/-!
Installing advice. A woven procedure says all about the weave that it was built from, so what one
install leaves is what the next one stacks on: a sequence of installs comes to the fold of
stacking, as long as user code that weaves leaves the destination and its ancestors alone.
-/
namespace TraitComposition

variable {σ : Type}

/-! ### Building -/

section Building

variable (meaning : Meaning σ)

namespace Layer

theorem exists_run_weave_eq (reference : LayerId) (base : Option ProcedureId) (world : World σ) :
    ∃ woven later, (weave meaning reference base).run world = (.ok woven, later) := by
  rw [weave, Action.run_getStore_bind]
  split
  · exact ⟨_, _, rfl⟩
  · exact ⟨_, _, rfl⟩
  · exact ⟨_, _, rfl⟩
  · rw [Action.run_bind_of_ok _ (Action.run_outcome ..)]
    split
    · exact ⟨_, _, rfl⟩
    · exact ⟨_, _, rfl⟩
  · exact ⟨_, _, rfl⟩

private theorem exists_run_weaveAll_eq :
    ∀ (layers : List LayerId) (base : Option ProcedureId) (world : World σ),
      layers ≠ [] ∨ base.isSome = true →
      ∃ woven later, (weaveAll meaning layers base).run world = (.ok (some woven), later)
  | [], some root, world, _ => ⟨root, world, rfl⟩
  | [], none, _, something => by simp at something
  | layer :: layers, base, world, _ => by
      rcases exists_run_weave_eq meaning layer base world with ⟨first, between, ran⟩
      rcases exists_run_weaveAll_eq layers (some first) between (.inr rfl) with
        ⟨woven, later, ranRest⟩
      exact ⟨woven, later, (Action.run_bind_of_ok _ ran).trans ranRest⟩

end Layer

namespace Weave

/-- Whatever user code that weaves does, a weave that is not empty is built, and what is built
carries it. -/
theorem exists_run_build_carrying {weave : Weave} (solid : weave ≠ {}) (world : World σ) :
    ∃ woven later, (weave.build meaning).run world = (.ok (some woven), later) ∧
      later.store.weaveOf (some (.procedure woven)) = weave := by
  have something : weave.layers ≠ [] ∨ weave.root.isSome = true := by
    rcases weave with ⟨_ | root, _ | ⟨layer, layers⟩⟩
    · exact absurd rfl solid
    · exact .inl nofun
    · exact .inr rfl
    · exact .inr rfl
  rcases Layer.exists_run_weaveAll_eq meaning weave.layers weave.root world something with
    ⟨inner, between, ran⟩
  refine ⟨_, _, (Action.run_bind_of_ok _ ran).trans (weave.run_finish inner between), ?_⟩
  apply Store.weaveOf_of_mark
  exact congrArg Procedure.mark
    (weave.procedure_finish (between.store.procedure inner) between.store)

end Weave

end Building

theorem Weave.stack_eq_empty_iff {isRequired : ProcedureId → Bool} {weave incoming : Weave} :
    weave.stack isRequired incoming = {} ↔ weave = {} ∧ incoming = {} := by
  constructor
  · intro empty
    have none_ (layer : LayerId) : layer ∉ (weave.stack isRequired incoming).layers := by
      rw [empty]
      exact List.not_mem_nil
    have noRoot : stackRoot isRequired weave.root incoming.root = none :=
      congrArg Weave.root empty
    rcases weave with ⟨root, layers⟩
    rcases incoming with ⟨other, more⟩
    obtain rfl : layers = [] := List.eq_nil_iff_forall_not_mem.mpr fun layer member =>
      none_ layer ((mem_layers_stack isRequired).mpr (.inl member))
    obtain rfl : more = [] := List.eq_nil_iff_forall_not_mem.mpr fun layer member =>
      none_ layer ((mem_layers_stack isRequired).mpr (.inr member))
    cases root with
    | none =>
        obtain rfl : other = none := noRoot
        exact ⟨rfl, rfl⟩
    | some root =>
        cases other with
        | none => cases noRoot
        | some other =>
            rw [stackRoot] at noRoot
            split at noRoot <;> cases noRoot
  · rintro ⟨rfl, rfl⟩
    exact stack_empty isRequired {}

/-- Where a name does not resolve to what cannot be assigned, a value is stored under it. -/
theorem Member.exists_run_assign (meaning : Meaning σ) {world : World σ} {object : ObjectId}
    {name : String} (value : Value)
    (writable : ∀ descriptor, world.store.descriptor? object name = some descriptor →
      ∃ old, descriptor.shape = .data old true) :
    ∃ descriptor, (assign meaning object name value).run world =
        (.ok (), { world with store := world.store.storeMember object name descriptor }) ∧
      descriptor.shape = .data value true := by
  cases found : world.store.lookup object name with
  | none =>
      refine ⟨.ofValue value, ?_, rfl⟩
      rw [assign, Action.run_getStore_bind, found]
      rfl
  | some resolved =>
      rcases resolved with ⟨owner, descriptor⟩
      have resolves : world.store.descriptor? object name = some descriptor := by
        rw [Store.descriptor?, found, Option.map_some]
      rcases writable descriptor resolves with ⟨old, shape⟩
      refine ⟨_, Member.run_assign meaning value found shape, ?_⟩
      split
      · rw [Descriptor.withValue, shape]
      · rfl

theorem Weave.exists_run_build_keeping {meaning : Meaning σ} {kept : ObjectId → Prop}
    (enters : ∀ code entry, Action.Follows (Passage.keeping σ kept) (meaning.enter code entry))
    {weave : Weave} (solid : weave ≠ {}) (world : World σ) :
    ∃ woven later, (weave.build meaning).run world = (.ok (some woven), later) ∧
      world.store.Keeps kept later.store ∧
      later.store.weaveOf (some (.procedure woven)) = weave := by
  rcases exists_run_build_carrying meaning solid world with ⟨woven, later, ran, carried⟩
  have keeps := follows_build enters
    (fun procedure _ => Action.keeping_edit fun store => .of_addProcedure store procedure)
    weave world
  rw [ran] at keeps
  exact ⟨woven, later, ran, keeps, carried⟩

/-! ### Sequences of installs -/

namespace Store

structure Carries (start : Store) (target : ObjectId) (name : String) (weave : Weave)
    (now : Store) : Prop where
  keeps : start.Keeps (· ∈ start.ancestors target) now
  writable : ∀ descriptor, now.descriptor? target name = some descriptor →
    ∃ value, descriptor.shape = .data value true
  weave : now.weaveOf (now.dataValue? target name) = weave

theorem Keeps.descriptor?_eq {kept : ObjectId → Prop} {before after : Store}
    (keeps : before.Keeps kept after) (rooted : before.Rooted) {object : ObjectId}
    (known : before.hasObject object = true)
    (inside : ∀ level ∈ before.ancestry object, kept level) (name : String) :
    after.descriptor? object name = before.descriptor? object name := by
  have same : after.lookup object name = before.lookup object name := by
    apply lookup_congr (keeps.extends_.ancestry_eq rooted (keeps.rooted rooted) known)
    intro level member
    rw [ownDescriptor?, ownDescriptor?,
      keeps.members level (hasObject_of_mem_ancestry rooted known member) (inside level member)]
  rw [descriptor?, descriptor?, same]

theorem Keeps.enumerableNames_eq {kept : ObjectId → Prop} {before after : Store}
    (keeps : before.Keeps kept after) (rooted : before.Rooted) {object : ObjectId}
    (known : before.hasObject object = true)
    (inside : ∀ level ∈ before.ancestry object, kept level) :
    after.enumerableNames object = before.enumerableNames object :=
  enumerableNames_congr (keeps.extends_.ancestry_eq rooted (keeps.rooted rooted) known)
    fun level member => keeps.members level (hasObject_of_mem_ancestry rooted known member)
      (inside level member)

theorem not_mem_ancestors_self {store : Store} (rooted : store.Rooted) (object : ObjectId) :
    object ∉ store.ancestors object := fun member =>
  Nat.lt_irrefl _ (index_lt_of_isPrototypeOf rooted (decide_eq_true member))

end Store

namespace Decorator

open TraitComposition.Action (Follows)

section Installs

variable {meaning : Meaning σ} {kept : ObjectId → Prop}
  (enters : ∀ code entry, Follows (Passage.keeping σ kept) (meaning.enter code entry))
  {start : Store} (rooted : start.Rooted) {target : ObjectId}
  (known : start.hasObject target = true) (inside : ∀ level ∈ start.ancestry target, kept level)
  {name : String} {current : Weave} {now : World σ}
  (older : ∀ root, current.root = some root → start.hasProcedure root = true)
  (carries : start.Carries target name current now.store)

include enters rooted known inside older carries

theorem exists_run_installWeave_carrying (weave : Weave) :
    ∃ later, (installWeave meaning weave target name).run now = (.ok (), later) ∧
      start.Carries target name (start.stackWeaves current weave) later.store := by
  have extends_ := carries.keeps.extends_
  have rootedNow := carries.keeps.rooted rooted
  rw [installWeave, Action.run_getStore_bind]
  dsimp only
  rw [carries.weave, Weave.stackWeaves_eq older extends_ weave]
  by_cases solid : start.stackWeaves current weave = {}
  · obtain ⟨rfl, rfl⟩ := Weave.stack_eq_empty_iff.mp solid
    rw [solid]
    exact ⟨now, rfl, carries⟩
  rcases Weave.exists_run_build_keeping enters solid now with ⟨woven, built, ran, keeps, carried⟩
  have same := keeps.descriptor?_eq rootedNow (extends_.object target known).1 (fun level member =>
    inside level (extends_.ancestry_eq rooted rootedNow known ▸ member)) name
  rcases Member.exists_run_assign meaning (.procedure woven) fun descriptor found =>
    carries.writable descriptor (same.symm.trans found) with ⟨stored, assigned, shape⟩
  have own := Store.ownDescriptor?_storeMember_same built.store target name stored
    (keeps.extends_.object target (extends_.object target known).1).1
  refine ⟨_, (Action.run_bind_of_ok _ ran).trans assigned, ?_, fun descriptor found => ?_, ?_⟩
  · have built := carries.keeps.trans (keeps.mono fun level _ member =>
      inside level (List.mem_of_mem_tail member))
    exact built.trans (.of_changesOnly (.of_storeMember _ target name stored)
      (Store.not_mem_ancestors_self rooted target))
  · rw [Store.descriptor?_of_own own] at found
    obtain rfl := Option.some.inj found
    exact ⟨_, shape⟩
  · rw [Store.dataValue?, Store.descriptor?_of_own own, Option.bind_some, Descriptor.value?, shape]
    exact carried

theorem exists_run_installWeaves_carrying (weaves : List Weave)
    (olderToo : ∀ weave ∈ weaves, ∀ root, weave.root = some root → start.hasProcedure root = true) :
    ∃ later, (weaves.forM fun weave => install meaning (.weave weave) target name).run now =
        (.ok (), later) ∧
      start.Carries target name (start.stackAll current weaves) later.store := by
  induction weaves generalizing current now with
  | nil => exact ⟨now, rfl, carries⟩
  | cons weave weaves induction =>
      rw [List.forall_mem_cons] at olderToo
      rcases exists_run_installWeave_carrying enters rooted known inside older carries weave with
        ⟨between, ran, carriesThen⟩
      have stacked : ∀ root, (start.stackWeaves current weave).root = some root →
          start.hasProcedure root = true := by
        intro root equal
        rcases Weave.stackRoot_cases start.isRequired current.root weave.root with same | same
        · exact older root (same.symm.trans equal)
        · exact olderToo.1 root (same.symm.trans equal)
      rcases induction stacked carriesThen olderToo.2 with ⟨later, ranRest, carriesLater⟩
      exact ⟨later, (Action.run_bind_of_ok _ ran).trans ranRest, carriesLater⟩

end Installs

/-- Installing advice is stacking. Every install on what is missing or can be assigned succeeds, if
user code that weaves leaves the destination and its ancestors alone; the ancestors do not change,
and what the destination resolves the name to carries the stack of all weaves. So each layer is
there once, in the order of first occurrence, as no weave that is obtained by stacking repeats one;
and all are over the first root that is implemented. Whatever user code does, what is built of a
weave carries it. -/
theorem installs_stack {budget : Nat} {world : World σ} {target : ObjectId} {name : String}
    {original : Weave} {weaves : List Weave} (rooted : world.store.Rooted)
    (known : world.store.hasObject target = true)
    (writable : ∀ descriptor, world.store.descriptor? target name = some descriptor →
      ∃ value, descriptor.shape = .data value true)
    (begins : world.store.weaveOf (world.store.dataValue? target name) = original)
    (older : ∀ weave ∈ original :: weaves, ∀ root, weave.root = some root →
      world.store.hasProcedure root = true)
    (harmless : Harmless (· ∈ world.store.ancestry target)
      (fun meaning => weaves.forM fun weave => install meaning (.weave weave) target name)
      budget world) :
    (∃ later, (weaves.forM fun weave =>
          install (.ofBudget budget) (.weave weave) target name).run world = (.ok (), later) ∧
        (∀ ancestor ∈ world.store.ancestors target,
          later.store.members ancestor = world.store.members ancestor) ∧
        later.store.weaveOf (later.store.dataValue? target name) =
          world.store.stackAll original weaves) ∧
      (original.layers.Nodup → (world.store.stackAll original weaves).layers =
        ((original :: weaves).flatMap Weave.layers).eraseDups) ∧
      (world.store.stackAll original weaves).root = world.store.foundation (original :: weaves) ∧
      ∀ weave : Weave, weave ≠ {} → ∀ now : World σ, ∃ woven built,
        (weave.build (.ofBudget budget)).run now = (.ok (some woven), built) ∧
          built.store.weaveOf (some (.procedure woven)) = weave := by
  rw [List.forall_mem_cons] at older
  have carries : world.store.Carries target name original world.store :=
    ⟨.refl _ _, writable, begins⟩
  have shelters := (Meaning.shelters_sheltering (· ∈ world.store.ancestry target) budget :
    (Meaning.sheltering _ budget : Meaning σ).Shelters _)
  refine ⟨?_, fun unique => Store.layers_stackAll_eq_eraseDups unique weaves,
    Store.root_stackAll original weaves,
    fun weave solid now => Weave.exists_run_build_carrying _ solid now⟩
  rcases exists_run_installWeaves_carrying shelters.enter rooted known (fun _ member => member)
    older.1 carries weaves older.2 with ⟨later, ran, keeps, _, carried⟩
  refine ⟨later, Eq.trans harmless.symm ran, fun ancestor member => ?_, carried⟩
  exact keeps.members ancestor
    (Store.hasObject_of_mem_ancestry rooted known (List.mem_of_mem_tail member)) member

theorem harmless_of_unasked {kept : ObjectId → Prop} [DecidablePred kept] {world later : World σ}
    {target : ObjectId} {name : String} {weaves : List Weave}
    (ran : (weaves.forM fun weave =>
      installUnasked .exhausted (.weave weave) target name).run world = (.ok (), later))
    (budget : Nat) :
    Harmless kept (fun meaning => weaves.forM fun weave =>
      install meaning (.weave weave) target name) budget world :=
  have upheld (meaning : Meaning σ) := Action.UpheldBy.forM (fun weave =>
    upheld_installUnasked (Meaning.upheldBy_exhausted meaning) (.weave weave) target name) weaves
  (upheld _ world () later ran).trans (upheld _ world () later ran).symm

/-- A method behind an object that delegates to it, an advised copy of the method, and advice of
three kinds. That of the last kind locks the method while it is woven. -/
def advising : World Unit where
  store := {
    objects := #[{ members := .ofEntries [("n", .ofValue (.procedure ⟨1⟩))] },
      { parent := some ⟨0⟩ }]
    procedures := #[{ body := .required }, { body := .code ⟨0⟩ }]
    layers := #[{ advice := .before ⟨0⟩ }, { advice := .after ⟨1⟩ },
      { advice := .around ⟨1⟩ (.thrown "no procedure") }] }
  codes := #[fun _ => .done (.ok .undefined), fun
    | .weave (some base) =>
        .ask (.define ⟨0⟩ "n" ⟨.data (.procedure base) false, true, true⟩) fun _ =>
          .done (.ok (.procedure base))
    | _ => .done (.ok .undefined)]
  state := ()

theorem installs_stack_of_advising :
    ∃ later, (install (.ofBudget 1) (.weave (.single ⟨0⟩)) ⟨1⟩ "n" >>= fun _ =>
          install (.ofBudget 1) (.weave ⟨some ⟨1⟩, [⟨1⟩, ⟨0⟩]⟩) ⟨1⟩ "n" >>= fun _ =>
            pure ()).run advising = (.ok (), later) ∧
      later.store.members ⟨0⟩ = advising.store.members ⟨0⟩ ∧
      later.store.weaveOf (later.store.dataValue? ⟨1⟩ "n") = ⟨some ⟨1⟩, [⟨0⟩, ⟨1⟩]⟩ := by
  have ran : ([Weave.single ⟨0⟩, ⟨some ⟨1⟩, [⟨1⟩, ⟨0⟩]⟩].forM fun weave =>
      installUnasked .exhausted (.weave weave) ⟨1⟩ "n").run advising = (.ok (), _) :=
    Action.run_eq_of_toOption _ _ _ (by decide +kernel)
  have writable : ∀ descriptor, advising.store.descriptor? ⟨1⟩ "n" = some descriptor →
      ∃ value, descriptor.shape = .data value true := by
    rintro _ ⟨⟩
    exact ⟨_, rfl⟩
  have older : ∀ weave ∈ [Weave.bare ⟨1⟩, .single ⟨0⟩, ⟨some ⟨1⟩, [⟨1⟩, ⟨0⟩]⟩], ∀ root,
      weave.root = some root → advising.store.hasProcedure root = true := by
    decide
  rcases (installs_stack (Store.rooted_iff.mpr (by decide)) (by decide) writable rfl older
    (harmless_of_unasked ran 1)).1 with ⟨later, installed, ancestors, carried⟩
  exact ⟨later, installed, ancestors ⟨0⟩ (by decide), carried⟩

/-- User code that weaves may lock what it is woven over, so that the install fails; and where the
first root that comes is a placeholder, it does not stay. -/
theorem advice_may_lock :
    (advising.store.descriptor? ⟨0⟩ "n" = some (.ofValue (.procedure ⟨1⟩)) ∧
      ((install (.ofBudget 1) (.weave (.single ⟨2⟩)) ⟨0⟩ "n").run advising).1 =
        .error (.readOnly "n")) ∧
    advising.store.descriptor? ⟨0⟩ "m" = none ∧
      let later := ((install (.ofBudget 1) (.weave ⟨some Store.requiredMarker, [⟨0⟩]⟩) ⟨0⟩ "m" >>=
        fun _ => install (.ofBudget 1) (.weave ⟨some ⟨1⟩, [⟨1⟩]⟩) ⟨0⟩ "m").run advising).2.store
      later.weaveOf (later.dataValue? ⟨0⟩ "m") = ⟨some ⟨1⟩, [⟨0⟩, ⟨1⟩]⟩ :=
  ⟨⟨rfl, rfl⟩, rfl, by decide +kernel⟩

end Decorator

end TraitComposition
