import TraitComposition.Proofs.Advice.WeaveAlgebra
import TraitComposition.Proofs.Composition.Overrides
import TraitComposition.Proofs.Composition.Presence
import TraitComposition.Proofs.Merge.Holdings

/-!
Types that are composed with an ingredient again. A type that extends another one delegates to
its table. When both are composed, in this order, a method of the ingredient is known to be
overridden and stays so. A decorator of the ingredient is not asked whether it is: as long as
none of the ingredient's tables holds what the type has put in its place, its hook runs again,
and advice is stacked over the replacement.
-/
namespace TraitComposition

variable {σ : Type}

/-! ### Methods and hooks that a store holds -/

def Hook.weave? : Hook → Option Weave
  | .weave stacked => some stacked
  | .patch _ | .aliased .. | .code _ => none

private theorem Hook.bind_weave?_eq_some_iff {hook : Option Hook} {weave : Weave} :
    hook.bind weave? = some weave ↔ hook = some (.weave weave) := by
  rcases hook with _ | hook
  · simp
  · cases hook <;> simp [weave?]

/-! ### Advice on a new table -/

namespace Store

private theorem dataValue?_of_descriptor? {store : Store} {object : ObjectId} {name : String}
    {value : Value} (resolved : store.descriptor? object name = some (.ofValue value)) :
    store.dataValue? object name = some value := by
  rw [dataValue?, resolved]
  rfl

private theorem hasOwn_eq_of_lookup {store : Store} {table owner : ObjectId} {name : String}
    {descriptor : Descriptor} (found : store.lookup table name = some (owner, descriptor)) :
    store.hasOwn table name = (owner == table) := by
  rw [hasOwn_eq_isSome]
  cases owned : store.ownDescriptor? table name with
  | some own =>
      rw [lookup_of_own owned, Option.some.injEq, Prod.mk.injEq] at found
      simp [found.1]
  | none =>
      symm
      rw [Option.isSome_none, beq_eq_false_iff_ne]
      rintro rfl
      rw [(ownDescriptor?_of_lookup found).2] at owned
      cases owned

end Store

private theorem Merge.installs_eq (store : Store) (table : ObjectId) (chain : List ObjectId)
    (name : String) (current : Option Value) :
    installs store table chain name current =
      ((hookUnder? store table name).isSome &&
        (store.hasOwn table name && !(current.any (store.chainHolds chain name)))) := by
  cases found : store.lookup table name with
  | none => simp [installs, hookUnder?, Store.descriptor?, found]
  | some resolved =>
      rcases resolved with ⟨owner, descriptor⟩
      rw [Store.hasOwn_eq_of_lookup found, installs, hookUnder?, Store.descriptor?, found]
      cases method : descriptor.method? <;> simp [method]

private theorem Holding.weave_ofDescriptor? (store : Store) (resolved : Option Descriptor) :
    (ofDescriptor? resolved).weave store = store.weaveOf (resolved.bind Descriptor.value?) := by
  cases resolved <;> rfl

theorem Member.run_assign_of_unowned (meaning : Meaning σ) {world : World σ} {object : ObjectId}
    {name : String} (unowned : world.store.ownDescriptor? object name = none)
    (open_ : ∀ descriptor, world.store.descriptor? object name = some descriptor →
      ∃ old, descriptor.shape = .data old true) (value : Value) :
    (assign meaning object name value).run world =
      (.ok (), { world with store := world.store.storeMember object name (.ofValue value) }) := by
  cases found : world.store.lookup object name with
  | none =>
      rw [assign, Action.run_getStore_bind, found]
      rfl
  | some resolved =>
      rcases resolved with ⟨owner, descriptor⟩
      rcases open_ descriptor (by rw [Store.descriptor?, found, Option.map_some]) with ⟨old, shape⟩
      have other : owner ≠ object := by
        rintro rfl
        rw [(Store.ownDescriptor?_of_lookup found).2] at unowned
        cases unowned
      rw [run_assign meaning value found shape, if_neg other]

section Advice

variable {meaning : Meaning σ} (evolving : meaning.Evolving) {world now : World σ}
  (evolution : (Passage.evolution σ).leads world now) (rooted : world.store.Rooted)
  {base : ObjectId} (adds : world.store.AddsTable base now.store)
  (known : world.store.hasObject base = true) {name : String}
  (unowned : now.store.ownDescriptor? world.store.nextObject name = none)

include evolving evolution rooted adds known unowned

theorem exists_run_installWeave_of_unowned {weave : Weave} (layered : weave.layers ≠ [])
    (sound : weave.Sound meaning world)
    (ready : (Holding.ofDescriptor? (world.store.descriptor? base name)).Ready meaning world) :
    ∃ woven later,
      (Decorator.installWeave meaning weave world.store.nextObject name).run now =
        (.ok (), later) ∧
      Store.Confined world.store.nextObject [name] now.store later.store ∧
      later.store.ownDescriptor? world.store.nextObject name =
        some (.ofValue (.procedure woven)) ∧
      (later.store.procedure woven).mark = some (.weave
        (world.store.stackWeaves (world.store.weaveOf (world.store.dataValue? base name))
          weave)) := by
  have resolved := adds.descriptor?_nextObject rooted known unowned
  have rootedNow := adds.changes.rooted rooted
  have there := adds.hasObject_nextObject
  have holds : now.store.Holds world.store.nextObject name
      (Holding.ofDescriptor? (world.store.descriptor? base name)) := by
    rw [← resolved]
    exact now.store.holds_ofDescriptor? _ _
  have stacked := (ready.sound.stack sound).later evolution
  have layeredToo : (world.store.stackWeaves ((Holding.ofDescriptor? (world.store.descriptor?
      base name)).weave world.store) weave).layers ≠ [] := by
    rcases List.exists_mem_of_ne_nil _ layered with ⟨layer, member⟩
    exact List.ne_nil_of_mem ((Weave.mem_layers_stack _).mpr (.inr member))
  rcases Weave.exists_run_build evolving stacked layeredToo with
    ⟨woven, built, ran, onlyAdds, _, marked⟩
  rw [Holding.weave_ofDescriptor?] at ran marked
  have confined := onlyAdds.confined there []
  have unownedBuilt : built.store.ownDescriptor? world.store.nextObject name = none := by
    rw [← unowned, Store.ownDescriptor?, Store.ownDescriptor?, onlyAdds.members_eq there]
  have open_ : ∀ descriptor, built.store.descriptor? world.store.nextObject name =
      some descriptor → ∃ old, descriptor.shape = .data old true := by
    intro descriptor found
    rw [onlyAdds.descriptor?_eq rootedNow there, resolved] at found
    rw [found] at ready
    exact ready.1
  have assigned := Member.run_assign_of_unowned meaning unownedBuilt open_ (.procedure woven)
  have stored := Store.Confined.of_storeMember built.store world.store.nextObject name
    (.ofValue (.procedure woven))
  refine ⟨woven, { built with store := _ }, ?_, confined.trans stored,
    Store.ownDescriptor?_storeMember_same _ _ _ _ (confined.extends_.object _ there).1, marked⟩
  rw [Decorator.installWeave, Action.run_getStore_bind]
  dsimp only
  rw [ready.weaveOf_eq evolution.1.extends holds,
    ready.sound.stackWeaves_eq evolution.1.extends weave, Holding.weave_ofDescriptor?,
    Action.run_bind_of_ok _ ran]
  exact assigned

end Advice

/-! ### Extensions delegate -/

namespace Composer

open Merge
open Store (AddsTable Confined)
open TraitComposition.Action (Follows succeeded_of_bind)

theorem extends_enterType (composer : Composer) (sources : List Value) (prototype : ObjectId)
    (store : Store) : store.Extends (composer.enterType sources prototype store).2 :=
  (Store.evolves_prototypes (chainSources prototype sources) store).extends.trans
    (.of_addComposite _ prototype _ composer)

section Extending

variable {meaning : Meaning σ} (evolving : meaning.Evolving) {world extended : World σ}
  {type : Composite} {sources : List Value} {sub : ProcedureId}

include evolving

theorem delegates_of_extend (tables : world.store.HasTables)
    (houses : world.store.Houses type.procedure type)
    (present : ∀ source ∈ sources, world.store.Present source)
    (ran : (type.extend meaning sources).run world = (.ok sub, extended)) :
    ∃ built, extended.store.Houses sub built ∧
      extended.store.parent built.prototype = some type.prototype := by
  have there : ∀ source ∈ Value.procedure type.procedure :: sources,
      world.store.Present source := by
    rw [List.forall_mem_cons]
    exact ⟨.type houses, present⟩
  rcases houses_of_compose evolving tables there ran with ⟨built, housed, _⟩
  refine ⟨built, housed, ?_⟩
  rcases compose_succeeded ran with ⟨prototype, merged, ranTable, rfl, rfl⟩
  have prototype_ : built.prototype = prototype := by
    have found := housed.found
    rw [composite?_enterType, Option.some.injEq] at found
    exact (congrArg Composite.prototype found).symm
  rw [List.headD_cons, List.tail_cons, composeTable_procedure] at ranTable
  rw [Action.run_bind_of_ok _ (Sources.run_delegate_of_type houses.found)] at ranTable
  have adds := AddsTable.of_delegating houses.hasObject_prototype
  have evolution := (Follows.bind (Definer.evolving_ofValue evolving (.procedure type.procedure))
    fun definer => Follows.bind (evolving_mixin evolving world.store.nextObject sources definer)
      fun conflicts => Follows.bind (type.composer.evolving_report conflicts) fun _ =>
        Follows.pure world.store.nextObject)
    { world with store := world.store.delegating type.prototype }
  rw [ranTable] at evolution
  rcases succeeded_of_bind ranTable with ⟨_, _, _, ranTable⟩
  rcases succeeded_of_bind ranTable with ⟨_, _, _, ranTable⟩
  rcases succeeded_of_bind ranTable with ⟨_, _, _, ranTable⟩
  cases ranTable
  have entered := extends_enterType type.composer (.procedure type.procedure :: sources)
    world.store.nextObject merged.store
  rw [prototype_]
  have made := evolution.1.extends.object _ adds.hasObject_nextObject
  exact (entered.object _ made.1).2.trans (made.2.trans adds.parent)

theorem line_of_extend (rooted : world.store.Rooted) (tables : world.store.HasTables)
    (houses : world.store.Houses type.procedure type)
    (present : ∀ source ∈ sources, world.store.Present source)
    (ran : (type.extend meaning sources).run world = (.ok sub, extended)) {now : World σ}
    (evolution : (Passage.evolution σ).leads extended now) {kept ingredient : Composite}
    (found : now.store.composite? sub = some kept)
    (foundToo : now.store.composite? type.procedure = some ingredient) :
    now.store.Rooted ∧ now.store.Houses sub kept ∧
      now.store.Houses type.procedure ingredient ∧
      ingredient.prototype ∈ now.store.ancestry kept.prototype := by
  have composed := type.composer.evolving_compose evolving
    (.procedure type.procedure :: sources) world
  rw [← Composite.extend, ran] at composed
  have whole := (Passage.evolution σ).trans composed evolution
  have rootedNow := rooted.evolves whole.1
  rcases delegates_of_extend evolving tables houses present ran with ⟨built, housed, parent⟩
  rcases housed.extends evolution.1.extends with ⟨_, housedNow⟩
  rcases houses.extends whole.1.extends with ⟨_, housesNow⟩
  cases found.symm.trans housedNow.found
  cases foundToo.symm.trans housesNow.found
  refine ⟨rootedNow, housedNow, housesNow, ?_⟩
  have delegates := (evolution.1.extends.object _ housed.hasObject_prototype).2.trans parent
  rw [Store.ancestry_eq rootedNow]
  dsimp only
  rw [delegates]
  exact List.mem_cons_of_mem _ (List.mem_cons_self ..)

end Extending

/-! ### Hooks that run again -/

/-- The hook that runs under a name when an ingredient is merged over a type that was made of it:
that of a decorator which the ingredient owns, if none of the tables of the ingredient holds what
the type resolves. -/
def reinstalled? (store : Store) (kept ingredient : Composite) (name : String) : Option Hook :=
  if name ∈ store.enumerableNames ingredient.prototype ∧
      store.hasOwn ingredient.prototype name = true ∧
      (store.dataValue? kept.prototype name).any
        (store.chainHolds (chainOf ingredient) name) = false then
    hookUnder? store ingredient.prototype name
  else
    none

private theorem reinstalled?_eq_hookUnder? {store : Store} {kept ingredient : Composite}
    {name : String} (again : (reinstalled? store kept ingredient name).isSome = true) :
    reinstalled? store kept ingredient name = hookUnder? store ingredient.prototype name := by
  unfold reinstalled? at again ⊢
  split at again
  · next runs => rw [if_pos runs]
  · cases again

/-- Whether a method of an ingredient is taken for an override of what the type resolves: there
it is implemented and meets a requirement, or it is owned and the ingredient has overridden what
it meets. -/
def Prevails (store : Store) (ingredient : Composite) (name : String)
    (incoming standing : ProcedureId) : Prop :=
  name ∈ store.enumerableNames ingredient.prototype ∧ store.isRequired incoming = false ∧
    (store.isRequired standing = true ∨
      store.hasOwn ingredient.prototype name = true ∧ Entered store ingredient name standing)

def KnownMethods (store : Store) (table : ObjectId) : Prop :=
  ∀ name method, store.dataValue? table name = some (.procedure method) →
    store.hasProcedure method = true

private theorem knownMethods_of_members {store : Store} {table : ObjectId}
    (known : ∀ level ∈ store.ancestry table, ∀ name ∈ (store.members level).names,
      (((store.ownDescriptor? level name).bind Descriptor.value?).bind Value.asProcedure).all
        store.hasProcedure = true) : KnownMethods store table := by
  intro name method holds
  rcases Option.bind_eq_some_iff.mp holds with ⟨descriptor, resolved, valued⟩
  rcases Option.map_eq_some_iff.mp resolved with ⟨⟨owner, _⟩, found, rfl⟩
  rcases Store.ownDescriptor?_of_lookup found with ⟨member, owned⟩
  have inside : name ∈ (store.members owner).names :=
    MemberTable.mem_names_iff.mpr ⟨_, owned⟩
  have all := known owner member name inside
  rw [owned, Option.bind_some, valued] at all
  exact all

/-- Whether a hook that is to run over what a type resolves under a name minds that name. Advice
does if it is sound and the member can be assigned; of user code it has to be assumed. -/
def Behaves (meaning : Meaning σ) (world : World σ) (kept : Composite) (name : String) :
    Hook → Prop
  | .weave weave => weave.layers ≠ [] ∧ weave.Sound meaning world ∧
      (Holding.ofDescriptor? (world.store.descriptor? kept.prototype name)).Ready meaning world
  | hook => ∀ now : World σ, (Passage.evolution σ).leads world now →
      world.store.AddsTable kept.prototype now.store →
      now.store.ownDescriptor? world.store.nextObject name = none →
      ∃ later, (meaning.step.install hook world.store.nextObject name).run now = (.ok (), later) ∧
        Confined world.store.nextObject [name] now.store later.store

section Hooks

variable {store now : Store} (rooted : store.Rooted) {first second : ProcedureId}
  {kept ingredient : Composite} (houses : store.Houses first kept)
  (housesOther : store.Houses second ingredient) (adds : store.AddsTable kept.prototype now)
  {name : String} (unowned : now.ownDescriptor? store.nextObject name = none)
  (listed : name ∈ store.enumerableNames ingredient.prototype)
  (known : KnownMethods store ingredient.prototype)

omit unowned listed
include rooted housesOther adds known

private theorem hookUnder?_ingredient :
    hookUnder? now ingredient.prototype name = hookUnder? store ingredient.prototype name := by
  rw [hookUnder?, hookUnder?, adds.descriptor?_eq rooted housesOther.hasObject_prototype]
  cases method : (store.descriptor? ingredient.prototype name).bind Descriptor.method? with
  | none => rfl
  | some incoming =>
      refine adds.changes.extends_.hook (known name incoming ?_)
      rcases Option.bind_eq_some_iff.mp method with ⟨descriptor, found, holds⟩
      rw [Store.dataValue?, found, Option.bind_some, Descriptor.value?_of_method? holds]

include houses unowned listed

private theorem installs_eq_reinstalled :
    installs now ingredient.prototype (chainOf ingredient) name
        (now.dataValue? store.nextObject name) =
      (reinstalled? store kept ingredient name).isSome := by
  have there := housesOther.hasObject_prototype
  have chain (value : Value) := adds.chainHolds_eq rooted
    (fun table member => housesOther.known table (FirstSeen.mem_ofList.mp member)) name value
  have owns : now.hasOwn ingredient.prototype name = store.hasOwn ingredient.prototype name := by
    rw [Store.hasOwn, Store.hasOwn,
      adds.changes.members _ there (Store.nextObject_ne there).symm]
  rw [installs_eq, hookUnder?_ingredient rooted housesOther adds known, owns,
    adds.dataValue?_nextObject rooted houses.hasObject_prototype unowned, funext chain,
    reinstalled?]
  cases store.hasOwn ingredient.prototype name <;>
    cases (store.dataValue? kept.prototype name).any
      (store.chainHolds (chainOf ingredient) name) <;> simp [listed]

end Hooks

private theorem discreetAlong_of_behaves {meaning : Meaning σ} (evolving : meaning.Evolving)
    {world : World σ} (rooted : world.store.Rooted) {first second : ProcedureId}
    {kept ingredient : Composite} (houses : world.store.Houses first kept)
    (housesOther : world.store.Houses second ingredient) {name : String}
    (listed : name ∈ world.store.enumerableNames ingredient.prototype)
    (known : KnownMethods world.store ingredient.prototype)
    (behaves : ∀ hook, reinstalled? world.store kept ingredient name = some hook →
      Behaves meaning world kept name hook) :
    DiscreetAlong meaning.step (.evolution σ) world kept ingredient name := by
  intro now hook reached adds unowned under runs
  rw [installs_eq_reinstalled rooted houses housesOther adds unowned listed known] at runs
  rw [hookUnder?_ingredient rooted housesOther adds known] at under
  have minds := behaves hook ((reinstalled?_eq_hookUnder? runs).trans under)
  cases hook with
  | weave weave =>
      rcases minds with ⟨layered, sound, ready⟩
      rcases exists_run_installWeave_of_unowned evolving reached rooted adds
        houses.hasObject_prototype unowned layered sound ready with ⟨_, later, ran, confined, _, _⟩
      exact ⟨later, ran, confined⟩
  | patch | aliased | code => exact minds now reached adds unowned

/-! ### Methods without hooks -/

section Ingredient

variable {store now later : Store} {kept ingredient : Composite} {name : String}
  {conflicts : List Conflict} (decided : Decided store kept ingredient name now later conflicts)
  (rooted : store.Rooted) {first second : ProcedureId} (houses : store.Houses first kept)
  (housesOther : store.Houses second ingredient) {incoming standing : ProcedureId}
  (brought : store.dataValue? ingredient.prototype name = some (.procedure incoming))
  (stands : store.dataValue? kept.prototype name = some (.procedure standing))

include decided rooted houses housesOther brought stands

private theorem Decided.outcome_of_methods :
    outcome store now ingredient name =
      weighed now store.nextObject [] (chainOf ingredient) (chainOf ingredient) name
        (store.hasOwn ingredient.prototype name) incoming (some (.procedure standing)) := by
  rcases Option.bind_eq_some_iff.mp brought with ⟨_, resolved, valued⟩
  rcases Option.map_eq_some_iff.mp resolved with ⟨⟨owner, descriptor⟩, found, rfl⟩
  have method : descriptor.method? = some incoming := by
    rw [Descriptor.method?, valued]
    rfl
  rw [outcome, resolution, decided.adds.lookup_eq rooted housesOther.hasObject_prototype, found,
    Store.hasOwn_eq_of_lookup found]
  simp only [method]
  rw [decided.adds.dataValue?_nextObject rooted houses.hasObject_prototype decided.unowned, stands]

variable (line : ingredient.prototype ∈ store.ancestry kept.prototype)
  (listed : name ∈ store.enumerableNames ingredient.prototype)
  (known : store.hasProcedure incoming = true) (knownToo : store.hasProcedure standing = true)

include line listed known knownToo

theorem Decided.outcome_of_ingredient (different : standing ≠ incoming) :
    (Prevails store ingredient name incoming standing ∧
        outcome store now ingredient name = .incoming) ∨
      (¬Prevails store ingredient name incoming standing ∧
        outcome store now ingredient name = .keepDestination) := by
  have whole := decided.outcome_of_methods rooted houses housesOther brought stands
  have required := decided.adds.changes.extends_.isRequired known
  have requiredToo := decided.adds.changes.extends_.isRequired knownToo
  rw [weighed, if_neg different, Rivalry.resolve, required, requiredToo] at whole
  cases implemented : store.isRequired incoming with
  | true =>
      refine .inr ⟨fun prevails => ?_, by rw [whole, if_pos implemented]⟩
      rw [prevails.2.1] at implemented
      cases implemented
  | false =>
      cases implementing : store.isRequired standing with
      | true =>
          refine .inl ⟨⟨listed, implemented, .inl implementing⟩, ?_⟩
          simp [whole, implemented, implementing]
      | false =>
          rcases Option.bind_eq_some_iff.mp brought with ⟨_, resolved, valued⟩
          rcases Option.map_eq_some_iff.mp resolved with ⟨⟨owner, descriptor⟩, found, rfl⟩
          have owns := Store.hasOwn_eq_of_lookup found
          have rivals := decided.outcome_of_rivals rooted houses housesOther found
            (by rw [Descriptor.method?, valued]; rfl) stands different implemented implementing
          have loses (missing : ¬(store.hasOwn ingredient.prototype name = true ∧
              Entered store ingredient name standing)) :
              ¬Prevails store ingredient name incoming standing := fun prevails =>
            prevails.2.2.elim (fun required => by simp [implementing] at required) missing
          by_cases own : owner = ingredient.prototype
          · rw [if_pos own] at rivals
            cases entered : store.chainHolds (chainOf ingredient) name (.procedure standing) with
            | true =>
                refine .inl ⟨⟨listed, implemented, .inr ⟨by simp [owns, own], ?_⟩⟩, ?_⟩
                · exact chainHolds_chainOf_iff.mp entered
                · rw [rivals, if_pos entered]
            | false =>
                -- The ingredient is on the line of delegation, which thus holds its method.
                have inherited : now.inherits store.nextObject name (.procedure incoming) = true :=
                  (decided.inherits_iff rooted houses).mpr ⟨ingredient.prototype, line, by
                    rw [← own, (Store.ownDescriptor?_of_lookup found).2, Option.bind_some, valued]⟩
                refine .inr ⟨loses fun holds => ?_, by simp [rivals, entered, inherited]⟩
                rw [chainHolds_chainOf_iff.mpr holds.2] at entered
                cases entered
          · have passed : store.chainHolds (chainOf ingredient) name (.procedure incoming) = true :=
              chainHolds_chainOf_iff.mpr ⟨_, housesOther.own, brought⟩
            refine .inr ⟨loses fun holds => ?_, by rw [rivals, if_neg own, if_pos passed]⟩
            exact own (beq_iff_eq.mp (owns ▸ holds.1))

theorem Decided.of_ingredient :
    (∀ conflict ∈ conflicts, conflict.member ≠ name) ∧
      (Prevails store ingredient name incoming standing →
        (member store now ingredient name).value? = some (.procedure incoming)) ∧
      (¬Prevails store ingredient name incoming standing →
        (member store now ingredient name).value? = some (.procedure standing)) := by
  rcases Option.bind_eq_some_iff.mp brought with ⟨descriptor, resolved, valued⟩
  have copied (weighing : outcome store now ingredient name = .incoming) :
      (∀ conflict ∈ conflicts, conflict.member ≠ name) ∧
        (member store now ingredient name).value? = some (.procedure incoming) := by
    refine ⟨decided.no_conflict weighing (by rintro _ ⟨⟩), ?_⟩
    rw [decided.member_of_copied rooted housesOther resolved (by simp [weighing]), valued]
  by_cases same : standing = incoming
  · subst same
    have whole := decided.outcome_of_methods rooted houses housesOther brought stands
    rcases copied (by rw [whole, weighed, if_pos rfl]) with ⟨quiet, value⟩
    exact ⟨quiet, fun _ => value, fun _ => value⟩
  · rcases decided.outcome_of_ingredient rooted houses housesOther brought stands line listed known
      knownToo same with ⟨prevails, weighing⟩ | ⟨loses, weighing⟩
    · exact ⟨(copied weighing).1, fun _ => (copied weighing).2, fun loses => absurd prevails loses⟩
    · refine ⟨decided.no_conflict weighing (by rintro _ ⟨⟩), fun prevails => absurd prevails loses,
        fun _ => ?_⟩
      exact decided.member_of_kept rooted houses stands weighing

end Ingredient

/-! ### The composition -/

section Turns

variable {meaning : Meaning σ} {world : World σ} (rooted : world.store.Rooted)
  {second : ProcedureId} {kept ingredient : Composite} {name : String}
  {left mid conflicts : List Conflict} {now between merged : World σ}
  (turned : Turned meaning world.store second kept ingredient name left mid conflicts now between
    merged)

include turned

theorem Turned.of_installs {hook : Hook}
    (runs : installs now.store ingredient.prototype (chainOf ingredient) name
      (now.store.dataValue? world.store.nextObject name) = true)
    (under : hookUnder? now.store ingredient.prototype name = some hook) :
    (meaning.install hook world.store.nextObject name).run now = (.ok (), between) ∧
      ∀ conflict ∈ conflicts, conflict.member ≠ name := by
  rcases exists_of_installs runs with ⟨owner, descriptor, incoming, other, found, method, hooked,
    same⟩
  cases under.symm.trans same
  have ran := turned.ran
  rw [run_mixMethod_of_installs meaning (planOf world.store second) 0 _ left found method hooked
    runs] at ran
  rcases succeeded_of_bind ran with ⟨_, _, installed, settled⟩
  cases settled
  refine ⟨installed, fun conflict member equal => ?_⟩
  have held := (turned.rivals conflict equal).mp member
  rw [settleConflict, List.mem_filter] at held
  exact of_decide_eq_true held.2 equal

end Turns

section Stacked

variable {meaning : Meaning σ} (evolving : meaning.Evolving) {world now between : World σ}
  (rooted : world.store.Rooted) (reached : (Passage.evolution σ).leads world now)
  {first : ProcedureId} {kept : Composite} (houses : world.store.Houses first kept)
  (adds : world.store.AddsTable kept.prototype now.store) {name : String}
  (unowned : now.store.ownDescriptor? world.store.nextObject name = none)

include evolving rooted reached houses adds unowned

theorem stacked_of_behaves {weave : Weave}
    (behaves : Behaves meaning world kept name (.weave weave))
    (installed : (meaning.step.install (.weave weave) world.store.nextObject name).run now =
      (.ok (), between)) {later : Store} (extends_ : between.store.Extends later)
    (resolves : later.descriptor? world.store.nextObject name =
      between.store.descriptor? world.store.nextObject name) :
    ∃ advised, later.dataValue? world.store.nextObject name = some (.procedure advised) ∧
      later.weaveOf (some (.procedure advised)) =
        world.store.stackWeaves (world.store.weaveOf (world.store.dataValue? kept.prototype name))
          weave := by
  rcases behaves with ⟨layered, sound, ready⟩
  rcases exists_run_installWeave_of_unowned evolving reached rooted adds
    houses.hasObject_prototype unowned layered sound ready with
    ⟨advised, after, ran, _, owned, marked⟩
  cases installed.symm.trans ran
  refine ⟨advised, ?_, ?_⟩
  · rw [Store.dataValue?, resolves, Store.descriptor?_of_own owned]
    rfl
  · rw [extends_.weaveOf (Store.hasProcedure_of_mark marked), Store.weaveOf_of_mark marked]

end Stacked

section Members

variable {meaning : Meaning σ} (evolving : meaning.Evolving) (composer : Composer)
  {world : World σ} (rooted : world.store.Rooted) {first second : ProcedureId}
  {kept ingredient : Composite} (houses : world.store.Houses first kept)
  (housesOther : world.store.Houses second ingredient) (raw : kept.definer = none)
  (known : KnownMethods world.store ingredient.prototype)
  (behaves : ∀ another ∈ world.store.enumerableNames ingredient.prototype, ∀ hook,
    reinstalled? world.store kept ingredient another = some hook →
      Behaves meaning world kept another hook) {name : String}

include evolving rooted houses housesOther raw known behaves

private theorem yields_of_unlisted_ingredient
    (unlisted : name ∉ world.store.enumerableNames ingredient.prototype) :
    ∃ conflicts later,
      composer.Yields meaning.step [.procedure first, .procedure second] world conflicts
        world.store.nextObject later ∧
      (∀ conflict ∈ conflicts, conflict.member ≠ name) ∧
      later.store.descriptor? world.store.nextObject name =
        world.store.descriptor? kept.prototype name := by
  rcases run_mixin_of_unlisted meaning.step rooted houses housesOther
    (.evolution σ) (fun another held =>
      (respects_evolution evolving.step (planOf world.store second) another).mixMethod 0 _ _ held)
    (Passage.bears_evolution.follows_createObject (some kept.prototype) world) unlisted
    (fun another listed => discreetAlong_of_behaves evolving rooted houses housesOther listed known
      (behaves another listed))
    with ⟨conflicts, merged, ran, quiet, adds, unowned, journal⟩
  rcases yields_of_run_mixin meaning.step composer rooted houses housesOther raw ran adds journal
    with ⟨later, yields, _, resolves⟩
  refine ⟨conflicts, later, yields, quiet, (resolves name).trans ?_⟩
  exact adds.descriptor?_nextObject rooted houses.hasObject_prototype unowned

theorem yields_of_listed_ingredient
    (listed : name ∈ world.store.enumerableNames ingredient.prototype) :
    ∃ left mid conflicts now between merged later,
      composer.Yields meaning.step [.procedure first, .procedure second] world conflicts
        world.store.nextObject later ∧
      Turned meaning.step world.store second kept ingredient name left mid conflicts now between
        merged ∧
      (Passage.evolution σ).leads world now ∧ between.store.Extends later.store ∧
      later.store.descriptor? world.store.nextObject name =
        between.store.descriptor? world.store.nextObject name := by
  rcases run_mixin_of_listed meaning.step rooted houses housesOther
    (.evolution σ) (fun another held =>
      (respects_evolution evolving.step (planOf world.store second) another).mixMethod 0 _ _ held)
    (Passage.bears_evolution.follows_createObject (some kept.prototype) world) listed
    (fun another listed => discreetAlong_of_behaves evolving rooted houses housesOther listed known
      (behaves another listed))
    with ⟨left, mid, conflicts, now, between, merged, ran, turned, reached, journal⟩
  rcases yields_of_run_mixin meaning.step composer rooted houses housesOther raw ran
    (turned.addsBetween.later turned.after) journal with ⟨later, yields, extends_, resolves⟩
  exact ⟨left, mid, conflicts, now, between, merged, later, yields, turned, reached,
    turned.after.extends_.trans extends_,
    (resolves name).trans (Turned.descriptor?_eq meaning.step turned rooted)⟩

end Members

/-- What becomes of a method when a type is composed with what it extends. Whatever the type was
extended with, no conflict is reported under the name. If no hook runs again, the type keeps what
it resolves, unless the method of the ingredient prevails. Advice that is put on again is stacked
over what the type resolves, and any other decorator is installed there. -/
theorem recomposed_member {meaning : Meaning σ} (evolving : meaning.Evolving)
    (composer : Composer) {world extended now : World σ} {type : Composite}
    {sources : List Value} {sub : ProcedureId} (rooted : world.store.Rooted)
    (tables : world.store.HasTables) (houses : world.store.Houses type.procedure type)
    (present : ∀ source ∈ sources, world.store.Present source)
    (ran : (type.extend meaning.step sources).run world = (.ok sub, extended))
    (evolution : (Passage.evolution σ).leads extended now) {kept ingredient : Composite}
    (found : now.store.composite? sub = some kept) (raw : kept.definer = none)
    (foundToo : now.store.composite? type.procedure = some ingredient)
    (known : KnownMethods now.store kept.prototype)
    (knownToo : KnownMethods now.store ingredient.prototype)
    (behaves : ∀ another ∈ now.store.enumerableNames ingredient.prototype, ∀ hook,
      reinstalled? now.store kept ingredient another = some hook →
        Behaves meaning now kept another hook)
    {name : String} {incoming standing : ProcedureId}
    (brought : now.store.dataValue? ingredient.prototype name = some (.procedure incoming))
    (stands : now.store.dataValue? kept.prototype name = some (.procedure standing)) :
    ∃ conflicts later,
      composer.Yields meaning.step [.procedure sub, .procedure type.procedure] now conflicts
        now.store.nextObject later ∧
      (∀ conflict ∈ conflicts, conflict.member ≠ name) ∧
      (reinstalled? now.store kept ingredient name = none →
        (Prevails now.store ingredient name incoming standing →
          later.store.dataValue? now.store.nextObject name = some (.procedure incoming)) ∧
        (¬Prevails now.store ingredient name incoming standing →
          later.store.dataValue? now.store.nextObject name = some (.procedure standing))) ∧
      (∀ weave, reinstalled? now.store kept ingredient name = some (.weave weave) →
        ∃ advised, later.store.dataValue? now.store.nextObject name = some (.procedure advised) ∧
          later.store.weaveOf (some (.procedure advised)) =
            now.store.stackWeaves (now.store.weaveOf (some (.procedure standing))) weave ∧
          (now.store.Covers (now.store.weaveOf (some (.procedure standing))) weave →
            later.store.weaveOf (some (.procedure advised)) =
              now.store.weaveOf (some (.procedure standing)))) ∧
      (∀ hook, reinstalled? now.store kept ingredient name = some hook →
        ∃ before after : World σ,
          before.store.dataValue? now.store.nextObject name = some (.procedure standing) ∧
          (meaning.step.install hook now.store.nextObject name).run before = (.ok (), after) ∧
          later.store.descriptor? now.store.nextObject name =
            after.store.descriptor? now.store.nextObject name) := by
  rcases line_of_extend evolving.step rooted tables houses present ran evolution found foundToo
    with ⟨rootedNow, housesKept, housesIngredient, line⟩
  by_cases listed : name ∈ now.store.enumerableNames ingredient.prototype
  · rcases yields_of_listed_ingredient evolving composer rootedNow housesKept housesIngredient raw
      knownToo behaves listed with
      ⟨left, mid, conflicts, before, between, merged, later, yields, turned, reached, extends_,
        resolves⟩
    have again := installs_eq_reinstalled rootedNow housesKept housesIngredient turned.adds
      turned.unowned listed knownToo
    have inherited := turned.adds.dataValue?_nextObject rootedNow housesKept.hasObject_prototype
      turned.unowned
    rw [stands] at inherited
    cases runs : installs before.store ingredient.prototype (chainOf ingredient) name
        (before.store.dataValue? now.store.nextObject name) with
    | true =>
        rcases Option.isSome_iff_exists.mp (again.symm.trans runs) with ⟨hook, reinstalled⟩
        have under : hookUnder? before.store ingredient.prototype name = some hook := by
          rw [hookUnder?_ingredient rootedNow housesIngredient turned.adds knownToo,
            ← reinstalled?_eq_hookUnder? (again.symm.trans runs), reinstalled]
        rcases turned.of_installs runs under with ⟨installed, quiet⟩
        refine ⟨conflicts, later, yields, quiet, ?_, ?_, ?_⟩
        · rw [reinstalled]
          rintro ⟨⟩
        · intro weave equal
          cases reinstalled.symm.trans equal
          rcases stacked_of_behaves evolving rootedNow reached housesKept turned.adds
            turned.unowned (behaves name listed _ reinstalled) installed extends_ resolves with
            ⟨advised, value, woven⟩
          rw [stands] at woven
          exact ⟨advised, value, woven, fun covers => woven.trans covers.stackWeaves⟩
        · intro other equal
          cases reinstalled.symm.trans equal
          exact ⟨before, between, inherited, installed, resolves⟩
    | false =>
        have decided := Turned.decided meaning.step rootedNow housesIngredient turned listed runs
        rcases decided.of_ingredient rootedNow housesKept housesIngredient brought stands line
          listed (knownToo name incoming brought) (known name standing stands) with
          ⟨quiet, prevails, loses⟩
        have kept_ : later.store.dataValue? now.store.nextObject name =
            (Decided.member now.store before.store ingredient name).value? := by
          rw [Store.dataValue?, resolves, ← Turned.descriptor?_eq meaning.step turned rootedNow,
            Store.descriptor?_of_own decided.owned]
          rfl
        have none_ : ∀ hook, reinstalled? now.store kept ingredient name ≠ some hook := by
          intro hook reinstalled
          rw [runs, reinstalled] at again
          cases again
        refine ⟨conflicts, later, yields, quiet, fun _ => ?_, ?_, ?_⟩
        · rw [kept_]
          exact ⟨prevails, loses⟩
        · exact fun weave equal => absurd equal (none_ _)
        · exact fun hook equal => absurd equal (none_ _)
  · rcases yields_of_unlisted_ingredient evolving composer rootedNow housesKept housesIngredient
      raw knownToo behaves listed with ⟨conflicts, later, yields, quiet, resolves⟩
    have none_ : ∀ hook, reinstalled? now.store kept ingredient name ≠ some hook := by
      intro hook
      rw [reinstalled?, if_neg fun runs => listed runs.1]
      rintro ⟨⟩
    refine ⟨conflicts, later, yields, quiet, fun _ => ⟨fun prevails => ?_, fun _ => ?_⟩, ?_, ?_⟩
    · exact absurd prevails.1 listed
    · rw [Store.dataValue?, resolves]
      exact stands
    · exact fun weave equal => absurd equal (none_ _)
    · exact fun hook equal => absurd equal (none_ _)

/-! A type with two methods, whose second table puts advice on the first one and replaces the
other one, and an extension that replaces the first one and has the other one again. -/

def advisedRoots : World Unit where
  store := { Store.initial with
    objects := #[
      { members := .ofEntries
          [("n", .ofValue (.procedure ⟨1⟩)), ("m", .ofValue (.procedure ⟨1⟩))] },
      { members := .ofEntries
          [("n", .ofValue (.procedure ⟨4⟩)), ("m", .ofValue (.procedure ⟨2⟩))] },
      { members := .ofEntries
          [("n", .ofValue (.procedure ⟨3⟩)), ("m", .ofValue (.procedure ⟨1⟩))] }]
    procedures := Store.initial.procedures ++ #[{ body := .code ⟨0⟩ }, { body := .code ⟨1⟩ },
      { body := .code ⟨2⟩ }, { body := .unapplied none, hook := some (.weave (.single ⟨0⟩)) }]
    layers := #[{ advice := .after ⟨2⟩ }] }
  state := ()

def advisedType : World Unit :=
  ((({} : Composer).compose (.ofBudget 1) [.object ⟨0⟩, .object ⟨1⟩]).run advisedRoots).2

def typeAt (world : World Unit) (type : ProcedureId) : Composite :=
  (world.store.composite? type).get!

def replacedType : World Unit :=
  (((typeAt advisedType ⟨8⟩).extend (.ofBudget 1) [.object ⟨2⟩]).run advisedType).2

/-- Advice is put again over the method that has replaced the advised one. -/
theorem recomposed_member_of_advice :
    ∃ conflicts later advised,
      ({} : Composer).Yields (.ofBudget 1) [.procedure ⟨9⟩, .procedure ⟨8⟩] replacedType conflicts
        replacedType.store.nextObject later ∧
      (∀ conflict ∈ conflicts, conflict.member ≠ "n") ∧
      later.store.dataValue? replacedType.store.nextObject "n" = some (.procedure advised) ∧
      later.store.weaveOf (some (.procedure advised)) = ⟨some ⟨3⟩, [⟨0⟩]⟩ := by
  let kept := typeAt replacedType ⟨9⟩
  let ingredient := typeAt replacedType ⟨8⟩
  have called : (typeAt advisedType ⟨8⟩).procedure = ⟨8⟩ := by decide +kernel
  have houses : advisedType.store.Houses ⟨8⟩ (typeAt advisedType ⟨8⟩) :=
    ⟨(Option.some_get! _ (by decide +kernel)).symm, by decide +kernel, by decide +kernel⟩
  have evolution : (Passage.evolution Unit).leads advisedRoots replacedType :=
    (Passage.evolution Unit).trans
      (({} : Composer).evolving_compose (Meaning.evolving_ofBudget 1) _ advisedRoots)
      ((typeAt advisedType ⟨8⟩).composer.evolving_compose (Meaning.evolving_ofBudget 1) _
        advisedType)
  have ran := Action.run_eq_of_toOption
    ((typeAt advisedType ⟨8⟩).extend (.ofBudget 1) [.object ⟨2⟩]) advisedType ⟨9⟩
    (by decide +kernel)
  have names : replacedType.store.enumerableNames ingredient.prototype = ["n", "m"] := by
    decide +kernel
  have onN : reinstalled? replacedType.store kept ingredient "n" =
      some (.weave ⟨some ⟨1⟩, [⟨0⟩]⟩) :=
    Hook.bind_weave?_eq_some_iff.mp (by decide +kernel)
  have onM : reinstalled? replacedType.store kept ingredient "m" = none :=
    Option.isNone_iff_eq_none.mp (by decide +kernel)
  have incoming : replacedType.store.descriptor? ingredient.prototype "n" =
      some (.ofValue (.procedure ⟨7⟩)) := Store.descriptor?_of_same (by decide +kernel)
  have standing : replacedType.store.descriptor? kept.prototype "n" =
      some (.ofValue (.procedure ⟨3⟩)) := Store.descriptor?_of_same (by decide +kernel)
  have behaves : ∀ another ∈ replacedType.store.enumerableNames ingredient.prototype,
      ∀ hook, reinstalled? replacedType.store kept ingredient another =
        some hook → Behaves (.ofBudget 0) replacedType kept another hook := by
    simp only [names, List.forall_mem_cons]
    refine ⟨fun hook again => ?_, fun hook again => ?_, nofun⟩
    · cases onN.symm.trans again
      have sound : Weave.Sound (.ofBudget 0) advisedRoots ⟨some ⟨1⟩, [⟨0⟩]⟩ := by
        refine ⟨?_, fun layer member => ?_⟩
        · rintro _ ⟨⟩
          decide
        · rw [List.mem_singleton.mp member]
          exact ⟨{ advice := .after ⟨2⟩ }, rfl, trivial⟩
      refine ⟨List.cons_ne_nil _ _, sound.later evolution, ?_⟩
      · rw [standing]
        exact ⟨⟨_, rfl⟩, Weave.sound_bare (by decide +kernel)⟩
    · cases onM.symm.trans again
  rw [← called] at houses
  rcases recomposed_member (Meaning.evolving_ofBudget 0) {} (by decide +kernel) (by decide +kernel)
    houses (fun source member => List.mem_singleton.mp member ▸ .table (by decide +kernel)) ran
    ((Passage.evolution Unit).refl replacedType)
    (show replacedType.store.composite? ⟨9⟩ = some kept from
      (Option.some_get! _ (by decide +kernel)).symm)
    (Option.isNone_iff_eq_none.mp (by decide +kernel))
    (by rw [called]; exact (Option.some_get! _ (by decide +kernel)).symm)
    (knownMethods_of_members (by decide +kernel)) (knownMethods_of_members (by decide +kernel))
    behaves (Store.dataValue?_of_descriptor? incoming) (Store.dataValue?_of_descriptor? standing)
    with ⟨conflicts, later, yields, quiet, _, advises, _⟩
  rcases advises _ onN with ⟨advised, holds, woven, _⟩
  rw [called] at yields
  exact ⟨conflicts, later, advised, yields, quiet, holds, woven.trans (by decide +kernel)⟩

/-- A composition that puts advice again over the method with which an extension replaced the
advised one, and that goes back to a method which the extension had replaced by an earlier one. -/
theorem recomposed_member_changes :
    ∃ later,
      (({} : Composer).compose (.ofBudget 1) [.object ⟨0⟩, .object ⟨1⟩]).run advisedRoots =
        (.ok ⟨8⟩, advisedType) ∧
      ((typeAt advisedType ⟨8⟩).extend (.ofBudget 1) [.object ⟨2⟩]).run advisedType =
        (.ok ⟨9⟩, replacedType) ∧
      (({} : Composer).compose (.ofBudget 1) [.procedure ⟨9⟩, .procedure ⟨8⟩]).run replacedType =
        (.ok ⟨13⟩, later) ∧
      (replacedType.store.dataValue? (typeAt replacedType ⟨9⟩).prototype "n" =
          some (.procedure ⟨3⟩) ∧
        replacedType.store.weaveOf (some (.procedure ⟨3⟩)) = ⟨some ⟨3⟩, []⟩ ∧
        later.store.dataValue? (later.store.prototypeOf ⟨13⟩).1 "n" = some (.procedure ⟨12⟩) ∧
        later.store.weaveOf (some (.procedure ⟨12⟩)) = ⟨some ⟨3⟩, [⟨0⟩]⟩) ∧
      replacedType.store.dataValue? (typeAt replacedType ⟨9⟩).prototype "m" =
          some (.procedure ⟨1⟩) ∧
        later.store.dataValue? (later.store.prototypeOf ⟨13⟩).1 "m" = some (.procedure ⟨2⟩) ∧
        later.store.weaveOf (some (.procedure ⟨2⟩)) = ⟨some ⟨2⟩, []⟩ := by
  refine ⟨_, Action.run_eq_of_toOption _ _ _ (by decide +kernel),
    Action.run_eq_of_toOption _ _ _ (by decide +kernel),
    Action.run_eq_of_toOption _ _ _ (by decide +kernel),
    ⟨?_, by decide +kernel, ?_, by decide +kernel⟩, ?_, ?_, by decide +kernel⟩ <;>
    exact Store.dataValue?_of_descriptor? (Store.descriptor?_of_same (by decide +kernel))

end Composer

end TraitComposition
