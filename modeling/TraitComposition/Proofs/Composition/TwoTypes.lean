import TraitComposition.Proofs.Composition.Reporting
import TraitComposition.Proofs.Merge.OneType
import TraitComposition.Proofs.Store.NewTable

/-!
Compositions of two composite types. The table of such a composition delegates to the
table of the first type and starts out empty. Names are merged in turn, but as long as
hooks mind their own names, what becomes of a name can be read off the store as it was
before: off what the two types resolve, the delegation line of the first and the
flattened tables of the second.
-/
namespace TraitComposition.Composer

open Merge
open Store (AddsTable ChangesOnly Confined)

variable {σ : Type} (meaning : Meaning σ)

/-! ### Hooks -/

/-- Whether the hook under a name minds its own name, should it run when the second type
is merged over the first one: it does not fail, and changes nothing but what the new table
owns under the name. -/
def Discreet (store : Store) (base other : Composite) (name : String) : Prop :=
  ∀ (now : World σ) (hook : Hook), store.AddsTable base.prototype now.store →
    now.store.ownDescriptor? store.nextObject name = none →
    hookUnder? now.store other.prototype name = some hook →
    installs now.store other.prototype (chainOf other) name
      (now.store.dataValue? store.nextObject name) = true →
    ∃ later, (meaning.install hook store.nextObject name).run now = (.ok (), later) ∧
      Confined store.nextObject [name] now.store later.store

def DiscreetAlong (passage : Passage σ) (world : World σ) (base other : Composite)
    (name : String) : Prop :=
  ∀ (now : World σ) (hook : Hook), passage.leads world now →
    world.store.AddsTable base.prototype now.store →
    now.store.ownDescriptor? world.store.nextObject name = none →
    hookUnder? now.store other.prototype name = some hook →
    installs now.store other.prototype (chainOf other) name
      (now.store.dataValue? world.store.nextObject name) = true →
    ∃ later, (meaning.install hook world.store.nextObject name).run now = (.ok (), later) ∧
      Confined world.store.nextObject [name] now.store later.store

variable {meaning} in
private theorem Discreet.along {world : World σ} {base other : Composite} {name : String}
    (discreet : Discreet meaning world.store base other name) (passage : Passage σ) :
    DiscreetAlong meaning passage world base other name :=
  fun now hook _ => discreet now hook

def Silent (store : Store) (base other : Composite) (name : String) : Prop :=
  ∀ now : Store, store.AddsTable base.prototype now →
    installs now other.prototype (chainOf other) name
      (now.dataValue? store.nextObject name) = false

theorem Silent.discreet {store : Store} {base other : Composite} {name : String}
    (silent : Silent store base other name) : Discreet meaning store base other name := by
  intro now hook adds _ _ runs
  rw [silent now.store adds] at runs
  cases runs

def Hooked (store : Store) (table : ObjectId) (name : String) (hook : Option Hook) : Prop :=
  ∀ method, (store.descriptor? table name).bind Descriptor.method? = some method →
    store.hasProcedure method = true ∧ (store.procedure method).hook = hook

theorem hooked_of_plain {store : Store} {table : ObjectId} {name : String}
    {descriptor : Descriptor} {incoming : ProcedureId}
    (resolved : store.descriptor? table name = some descriptor)
    (method : descriptor.method? = some incoming)
    (implemented : store.isRequired incoming = false)
    (plain : (store.procedure incoming).hook = none) : Hooked store table name none := by
  intro other holds
  rw [resolved, Option.bind_some, method] at holds
  cases holds
  exact ⟨Store.hasProcedure_of_implemented implemented, plain⟩

section Hooks

variable {store : Store} (rooted : store.Rooted) {second : ProcedureId} {other : Composite}
  (housesOther : store.Houses second other) {name : String}

include rooted housesOther

private theorem hook_of_hookUnder? {base : ObjectId} {now : Store} (adds : store.AddsTable base now)
    {hook : Option Hook} (hooked : Hooked store other.prototype name hook) {found : Hook}
    (under : hookUnder? now other.prototype name = some found) : hook = some found := by
  rw [hookUnder?, adds.descriptor?_eq rooted housesOther.hasObject_prototype] at under
  rcases Option.bind_eq_some_iff.mp under with ⟨method, holds, carried⟩
  rcases hooked method holds with ⟨known, same⟩
  rw [← same, ← adds.changes.extends_.hook known]
  exact carried

theorem silent_of_unhooked {base : Composite} (hooked : Hooked store other.prototype name none) :
    Silent store base other name := by
  intro now adds
  cases runs : installs now other.prototype (chainOf other) name
      (now.dataValue? store.nextObject name) with
  | false => rfl
  | true =>
      rcases exists_of_installs runs with ⟨_, _, _, hook, _, _, _, under⟩
      cases hook_of_hookUnder? rooted housesOther adds hooked under

theorem silent_of_inherited {base : Composite} {owner : ObjectId} {descriptor : Descriptor}
    (resolved : store.lookup other.prototype name = some (owner, descriptor))
    (inherited : owner ≠ other.prototype) : Silent store base other name := by
  intro now adds
  rw [installs, adds.lookup_eq rooted housesOther.hasObject_prototype, resolved]
  dsimp only
  split
  · rfl
  · rw [beq_false_of_ne inherited, Bool.false_and, Bool.and_false]

end Hooks

/-! ### One name among the others -/

structure Decided (store : Store) (base other : Composite) (name : String) (now later : Store)
    (conflicts : List Conflict) : Prop where
  adds : store.AddsTable base.prototype now
  unowned : now.ownDescriptor? store.nextObject name = none
  addsLater : store.AddsTable base.prototype later
  owned : later.ownDescriptor? store.nextObject name =
    some (contribution now store.nextObject other.prototype (chainOf other) name)
  rivals : ∀ conflict, conflict.member = name → (conflict ∈ conflicts ↔
    rivalry? now store.nextObject other.prototype (chainOf other) name = some conflict)

def planOf (store : Store) (second : ProcedureId) : Plan where
  target := store.nextObject
  definer := .raw
  sources := [.procedure second]

structure Turned (store : Store) (second : ProcedureId) (base other : Composite) (name : String)
    (left mid conflicts : List Conflict) (now between later : World σ) : Prop where
  adds : store.AddsTable base.prototype now.store
  unowned : now.store.ownDescriptor? store.nextObject name = none
  fresh : ∀ conflict ∈ left, conflict.member ≠ name
  ran : (mixMethod meaning (planOf store second) 0 other.prototype (chainOf other) name left).run
    now = (.ok mid, between)
  addsBetween : store.AddsTable base.prototype between.store
  after : ChangesOnly store.nextObject between.store later.store
  owned : later.store.ownDescriptor? store.nextObject name =
    between.store.ownDescriptor? store.nextObject name
  rivals : ∀ conflict, conflict.member = name → (conflict ∈ conflicts ↔ conflict ∈ mid)

theorem Turned.descriptor?_eq {store : Store} {second : ProcedureId} {base other : Composite}
    {name : String} {left mid conflicts : List Conflict} {now between later : World σ}
    (turned : Turned meaning store second base other name left mid conflicts now between later)
    (rooted : store.Rooted) :
    later.store.descriptor? store.nextObject name =
      between.store.descriptor? store.nextObject name := by
  have rootedBetween := turned.addsBetween.changes.rooted rooted
  have known := turned.addsBetween.hasObject_nextObject
  rw [Store.descriptor?, Store.descriptor?,
    Store.lookup_congr (turned.after.ancestry_eq rootedBetween known)]
  intro level member
  by_cases same : level = store.nextObject
  · rw [same, turned.owned]
  · rw [Store.ownDescriptor?, Store.ownDescriptor?, turned.after.members level
      (Store.hasObject_of_mem_ancestry rootedBetween known member) same]

section Merging

variable {world : World σ} (rooted : world.store.Rooted) {first second : ProcedureId}
  {base other : Composite} (houses : world.store.Houses first base)
  (housesOther : world.store.Houses second other)

def mixNames (plan : Plan) (other : Composite) (names : List String) (held : List Conflict) :
    Action σ (List Conflict) :=
  names.foldlM
    (fun held name => mixMethod meaning plan 0 other.prototype (chainOf other) name held) held

private theorem unowned_of_confined {store now : Store} {base : ObjectId} {done : List String}
    (confined : Confined store.nextObject done (store.delegating base) now) {name : String}
    (absent : name ∉ done) : now.ownDescriptor? store.nextObject name = none := by
  rw [confined.others name absent]
  exact store.ownDescriptor?_delegating_nextObject base name

include rooted housesOther

private theorem isSome_lookup_of_listed {now : Store}
    (adds : world.store.AddsTable base.prototype now)
    {name : String} (listed : name ∈ world.store.enumerableNames other.prototype) :
    (now.lookup other.prototype name).isSome = true := by
  rcases Store.mem_enumerableNames_iff.mp listed with ⟨descriptor, resolved, _⟩
  rw [adds.lookup_eq rooted housesOther.hasObject_prototype, ← Option.isSome_map,
    ← Store.descriptor?, resolved, Option.isSome_some]

include houses

section Along

variable {passage : Passage σ}
  (follows : ∀ name held, Action.Follows passage
    (mixMethod meaning (planOf world.store second) 0 other.prototype (chainOf other) name held))

include follows

theorem run_mixNames_confined {names done : List String} (held : List Conflict) (now : World σ)
    (reached : passage.leads world now)
    (confined : Confined world.store.nextObject done (world.store.delegating base.prototype)
      now.store)
    (unique : (done ++ names).Nodup)
    (each : ∀ name ∈ names, name ∈ world.store.enumerableNames other.prototype ∧
      DiscreetAlong meaning passage world base other name) :
    ∃ left later,
      (mixNames meaning (planOf world.store second) other names held).run now = (.ok left, later) ∧
      Confined world.store.nextObject names now.store later.store ∧
      (∀ conflict, conflict.member ∉ names → (conflict ∈ left ↔ conflict ∈ held)) ∧
      passage.leads world later := by
  induction names generalizing done held now with
  | nil => exact ⟨held, now, rfl, .refl _ now.store, fun _ _ => Iff.rfl, reached⟩
  | cons name names induction =>
      have absent : name ∉ done := fun member =>
        (List.nodup_append.mp unique).2.2 name member name (List.mem_cons_self ..) rfl
      have adds := (AddsTable.of_delegating houses.hasObject_prototype).later
        confined.toChangesOnly
      have unowned := unowned_of_confined confined absent
      rcases each name (List.mem_cons_self ..) with ⟨listed, discreet⟩
      rcases run_mixMethod_confined meaning (planOf world.store second) held rfl rfl
        (adds.changes.types _ _ housesOther.found)
        (isSome_lookup_of_listed rooted housesOther adds listed) unowned
        (fun hook => discreet now hook reached adds unowned) with
        ⟨left, between, ran, confinedName, rest⟩
      have passed := follows name held now
      rw [ran] at passed
      rcases induction left between (passage.trans reached passed) (confined.trans confinedName)
        (by simpa using unique) (fun another member => each another (List.mem_cons_of_mem _ member))
        with ⟨last, later, ranRest, confinedRest, restLast, reachedLast⟩
      refine ⟨last, later, ?_, confinedName.trans confinedRest, ?_, reachedLast⟩
      · rw [mixNames, List.foldlM_cons, Action.run_bind_of_ok _ ran]
        exact ranRest
      · intro conflict outside
        rw [List.mem_cons, not_or] at outside
        rw [restLast conflict outside.2, rest conflict outside.1]

theorem run_mixNames_around {before after : List String} {name : String}
    (reached : passage.leads world { world with store := world.store.delegating base.prototype })
    (unique : (before ++ name :: after).Nodup)
    (each : ∀ another ∈ before ++ name :: after,
      another ∈ world.store.enumerableNames other.prototype ∧
        DiscreetAlong meaning passage world base other another) :
    ∃ left mid conflicts now between later,
      (mixNames meaning (planOf world.store second) other (before ++ name :: after) []).run
          { world with store := world.store.delegating base.prototype } = (.ok conflicts, later) ∧
        Turned meaning world.store second base other name left mid conflicts now between later ∧
        passage.leads world now ∧ later.store.journal = world.store.journal := by
  have absent : name ∉ before := fun member =>
    (List.nodup_append.mp unique).2.2 name member name (List.mem_cons_self ..) rfl
  have absentAfter : name ∉ after :=
    (List.nodup_cons.mp (List.nodup_append.mp unique).2.1).1
  -- The names before it.
  rcases run_mixNames_confined meaning rooted houses housesOther follows []
    { world with store := world.store.delegating base.prototype } reached (.refl _ _)
    (List.nodup_append.mp unique).1
    (fun another member => each another (List.mem_append_left _ member))
    with ⟨left, now, ranBefore, confined, rest, reachedNow⟩
  have fresh : ∀ conflict ∈ left, conflict.member ≠ name := by
    intro conflict member equal
    have held := (rest conflict (equal ▸ absent)).mp member
    cases held
  -- The name itself.
  have adds := (AddsTable.of_delegating houses.hasObject_prototype).later confined.toChangesOnly
  have unowned := unowned_of_confined confined absent
  rcases each name (by simp) with ⟨listed, discreet⟩
  rcases run_mixMethod_confined meaning (planOf world.store second) left rfl rfl
    (adds.changes.types _ _ housesOther.found)
    (isSome_lookup_of_listed rooted housesOther adds listed) unowned
    (fun hook => discreet now hook reachedNow adds unowned) with
    ⟨mid, between, ran, confinedName, _⟩
  have passed := follows name left now
  rw [ran] at passed
  -- The names after it.
  rcases run_mixNames_confined meaning rooted houses housesOther follows mid between
    (passage.trans reachedNow passed) (confined.trans confinedName) (by simpa using unique)
    (fun another member => each another (List.mem_append_right _ (List.mem_cons_of_mem _ member)))
    with ⟨conflicts, later, ranAfter, confinedAfter, restAfter, _⟩
  refine ⟨left, mid, conflicts, now, between, later, ?_, ?_, reachedNow, ?_⟩
  · rw [mixNames, List.foldlM_append]
    apply (Action.run_bind_of_ok _ ranBefore).trans
    rw [List.foldlM_cons]
    exact (Action.run_bind_of_ok _ ran).trans ranAfter
  · exact {
      adds, unowned, fresh, ran
      addsBetween := adds.later confinedName.toChangesOnly
      after := confinedAfter.toChangesOnly
      owned := confinedAfter.others name absentAfter
      rivals := fun conflict under => restAfter conflict (under ▸ absentAfter) }
  · exact confinedAfter.journal.trans (confinedName.journal.trans confined.journal)

end Along

theorem run_mixin_of_second :
    (mixin meaning world.store.nextObject [.procedure second] .raw).run
        { world with store := world.store.delegating base.prototype } =
      (mixNames meaning (planOf world.store second) other
        (world.store.enumerableNames other.prototype) []).run
          { world with store := world.store.delegating base.prototype } := by
  have delegating := AddsTable.of_delegating houses.hasObject_prototype
  have merged : (mixSource meaning (planOf world.store second) 0 (.procedure second) []).run
      { world with store := world.store.delegating base.prototype } = _ :=
    run_mixSource_of_type meaning _ 0 [] (delegating.changes.types _ _ housesOther.found)
  rw [delegating.enumerableNames_eq rooted housesOther.hasObject_prototype] at merged
  rw [mixin, mixSources, ← planOf, mixNames, ← merged, Action.run_bind]
  rcases (mixSource meaning (planOf world.store second) 0 (.procedure second) []).run _ with
    ⟨fault | conflicts, later⟩ <;> rfl

section Along

variable (passage : Passage σ)
  (follows : ∀ name held, Action.Follows passage
    (mixMethod meaning (planOf world.store second) 0 other.prototype (chainOf other) name held))
  (reached : passage.leads world { world with store := world.store.delegating base.prototype })

include follows reached

theorem run_mixin_of_listed {name : String}
    (listed : name ∈ world.store.enumerableNames other.prototype)
    (discreet : ∀ another ∈ world.store.enumerableNames other.prototype,
      DiscreetAlong meaning passage world base other another) :
    ∃ left mid conflicts now between later,
      (mixin meaning world.store.nextObject [.procedure second] .raw).run
          { world with store := world.store.delegating base.prototype } = (.ok conflicts, later) ∧
        Turned meaning world.store second base other name left mid conflicts now between later ∧
        passage.leads world now ∧ later.store.journal = world.store.journal := by
  have unique := world.store.nodup_enumerableNames other.prototype
  rcases List.append_of_mem listed with ⟨before, after, split⟩
  rw [run_mixin_of_second meaning rooted houses housesOther, split]
  apply run_mixNames_around meaning rooted houses housesOther follows reached (split ▸ unique)
  intro another member
  rw [← split] at member
  exact ⟨member, discreet another member⟩

theorem run_mixin_of_unlisted {name : String}
    (unlisted : name ∉ world.store.enumerableNames other.prototype)
    (discreet : ∀ another ∈ world.store.enumerableNames other.prototype,
      DiscreetAlong meaning passage world base other another) :
    ∃ conflicts later,
      (mixin meaning world.store.nextObject [.procedure second] .raw).run
          { world with store := world.store.delegating base.prototype } = (.ok conflicts, later) ∧
        (∀ conflict ∈ conflicts, conflict.member ≠ name) ∧
        world.store.AddsTable base.prototype later.store ∧
        later.store.ownDescriptor? world.store.nextObject name = none ∧
        later.store.journal = world.store.journal := by
  rcases run_mixNames_confined meaning rooted houses housesOther follows []
    { world with store := world.store.delegating base.prototype } reached (.refl _ _)
    (by simpa using world.store.nodup_enumerableNames other.prototype)
    (fun another member => ⟨member, discreet another member⟩)
    with ⟨conflicts, later, ran, confined, rest, _⟩
  refine ⟨conflicts, later, ?_, ?_, ?_, unowned_of_confined confined unlisted, confined.journal⟩
  · rw [run_mixin_of_second meaning rooted houses housesOther]
    exact ran
  · rintro conflict member rfl
    cases (rest conflict unlisted).mp member
  · exact (AddsTable.of_delegating houses.hasObject_prototype).later confined.toChangesOnly

end Along

omit houses in
theorem Turned.decided {name : String} {left mid conflicts : List Conflict}
    {now between later : World σ}
    (turned : Turned meaning world.store second base other name left mid conflicts now between
      later)
    (listed : name ∈ world.store.enumerableNames other.prototype)
    (silent : installs now.store other.prototype (chainOf other) name
      (now.store.dataValue? world.store.nextObject name) = false) :
    Decided world.store base other name now.store later.store conflicts := by
  have ran := run_mixMethod meaning (planOf world.store second) left rfl rfl
    (turned.adds.changes.types _ _ housesOther.found)
    (isSome_lookup_of_listed rooted housesOther turned.adds listed) turned.unowned silent
  rw [turned.ran, Prod.mk.injEq, Except.ok.injEq] at ran
  rcases ran with ⟨rfl, rfl⟩
  refine ⟨turned.adds, turned.unowned, turned.addsBetween.later turned.after, ?_, ?_⟩
  · rw [turned.owned]
    exact Store.ownDescriptor?_storeMember_same _ _ _ _ turned.adds.hasObject_nextObject
  · intro conflict under
    rw [turned.rivals conflict under]
    exact mem_holdConflict?_iff (fun _ rival => member_of_rivalry? rival) turned.fresh under

private theorem run_mixin_of_types {name : String}
    (listed : name ∈ world.store.enumerableNames other.prototype)
    (silent : Silent world.store base other name)
    (discreet : ∀ another ∈ world.store.enumerableNames other.prototype, another ≠ name →
      Discreet meaning world.store base other another) :
    ∃ conflicts now later,
      (mixin meaning world.store.nextObject [.procedure second] .raw).run
          { world with store := world.store.delegating base.prototype } = (.ok conflicts, later) ∧
        Decided world.store base other name now later.store conflicts ∧
        later.store.journal = world.store.journal := by
  have each (another : String) (member : another ∈ world.store.enumerableNames other.prototype) :
      DiscreetAlong meaning (.anywhere σ) world base other another := by
    by_cases same : another = name
    · exact same ▸ (silent.discreet meaning).along (.anywhere σ)
    · exact (discreet another member same).along (.anywhere σ)
  rcases run_mixin_of_listed meaning rooted houses housesOther (.anywhere σ)
    (fun _ _ _ => trivial) trivial listed each with
    ⟨left, mid, conflicts, now, between, later, ran, turned, _, journal⟩
  exact ⟨conflicts, now.store, later, ran,
    turned.decided meaning rooted housesOther listed (silent now.store turned.adds), journal⟩

end Merging

/-! ### The composition -/

section Composing

variable (composer : Composer) {world : World σ} (rooted : world.store.Rooted)
  {first second : ProcedureId} {base other : Composite}
  (houses : world.store.Houses first base) (housesOther : world.store.Houses second other)
  (raw : base.definer = none) {name : String}

include rooted houses housesOther raw

/-- Once the merge is over, composing two types succeeds, unless the composer rejects the
conflicts, and what the new table owns then does not change any more. -/
theorem yields_of_run_mixin {conflicts : List Conflict} {merged : World σ}
    (ran : (mixin meaning world.store.nextObject [.procedure second] .raw).run
      { world with store := world.store.delegating base.prototype } = (.ok conflicts, merged))
    (adds : world.store.AddsTable base.prototype merged.store)
    (journal : merged.store.journal = world.store.journal) :
    ∃ later,
      composer.Yields meaning [.procedure first, .procedure second] world conflicts
        world.store.nextObject later ∧
      merged.store.Extends later.store ∧
      ∀ name, later.store.descriptor? world.store.nextObject name =
        merged.store.descriptor? world.store.nextObject name := by
  have definer := Definer.run_ofValue_of_type meaning
    { world with store := world.store.delegating base.prototype } houses.found raw
  have table : (composer.composeTable meaning (.procedure first) [.procedure second]).run world =
      (composer.answer conflicts world.store.nextObject,
        { merged with store := merged.store.reportAll composer.observer conflicts }) := by
    rw [composeTable_procedure,
      Action.run_bind_of_ok _ (Sources.run_delegate_of_type houses.found),
      Action.run_bind_of_ok _ definer, Action.run_bind_of_ok _ ran, run_report_bind]
  have reported := merged.store.changesOnly_reportAll composer.observer conflicts
  have types : (merged.store.reportAll composer.observer conflicts).AllTypes
      [.procedure first, .procedure second] := by
    have kept (type : ProcedureId) (composite : Composite)
        (found : world.store.composite? type = some composite) :=
      (reported merged.store.nextObject).types type composite
        (adds.changes.types type composite found)
    intro source member
    rcases List.mem_cons.mp member with equal | last
    · exact ⟨first, base, equal, kept first base houses.found⟩
    · exact ⟨second, other, List.mem_singleton.mp last, kept second other housesOther.found⟩
  rcases yields_of_run_composeTable meaning composer [.procedure first, .procedure second] rfl
    table types (journal ▸ Store.journal_reportAll composer.observer conflicts merged.store)
    with ⟨later, yields, changes⟩
  have whole := (reported merged.store.nextObject).trans (changes merged.store.nextObject)
  refine ⟨later, yields, whole.extends_, fun name => ?_⟩
  have known := adds.hasObject_nextObject
  have rootedMerged := adds.changes.rooted rooted
  exact whole.descriptor?_eq rootedMerged known
    (Store.not_mem_ancestry_nextObject rootedMerged known) name

/-- If no hook runs under a name, what was decided in the merge is what the new table
resolves. -/
theorem yields_of_silent (listed : name ∈ world.store.enumerableNames other.prototype)
    (silent : Silent world.store base other name)
    (discreet : ∀ another ∈ world.store.enumerableNames other.prototype, another ≠ name →
      Discreet meaning world.store base other another) :
    ∃ conflicts now merged later,
      composer.Yields meaning [.procedure first, .procedure second] world conflicts
        world.store.nextObject later ∧
      Decided world.store base other name now merged conflicts ∧
      later.store.descriptor? world.store.nextObject name =
        some (contribution now world.store.nextObject other.prototype (chainOf other) name) := by
  rcases run_mixin_of_types meaning rooted houses housesOther listed silent discreet with
    ⟨conflicts, now, merged, ran, decided, journal⟩
  rcases yields_of_run_mixin meaning composer rooted houses housesOther raw ran decided.addsLater
    journal with ⟨later, yields, _, resolves⟩
  refine ⟨conflicts, now, merged.store, later, yields, decided, ?_⟩
  rw [resolves, Store.descriptor?_of_own decided.owned]

theorem yields_of_types (listed : name ∈ world.store.enumerableNames other.prototype)
    (hooked : Hooked world.store other.prototype name none)
    (discreet : ∀ another ∈ world.store.enumerableNames other.prototype, another ≠ name →
      Discreet meaning world.store base other another) :
    ∃ conflicts now merged later,
      composer.Yields meaning [.procedure first, .procedure second] world conflicts
        world.store.nextObject later ∧
      Decided world.store base other name now merged conflicts ∧
      later.store.dataValue? world.store.nextObject name =
        (contribution now world.store.nextObject other.prototype (chainOf other) name).value? := by
  rcases yields_of_silent meaning composer rooted houses housesOther raw listed
    (silent_of_unhooked rooted housesOther hooked) discreet with
    ⟨conflicts, now, merged, later, yields, decided, resolves⟩
  refine ⟨conflicts, now, merged, later, yields, decided, ?_⟩
  rw [Store.dataValue?, resolves, Option.bind_some]

/-- A name that the second type does not make enumerable is resolved as in the first. -/
theorem yields_of_unlisted (unlisted : name ∉ world.store.enumerableNames other.prototype)
    (discreet : ∀ another ∈ world.store.enumerableNames other.prototype,
      Discreet meaning world.store base other another) :
    ∃ conflicts later,
      composer.Yields meaning [.procedure first, .procedure second] world conflicts
        world.store.nextObject later ∧
      (∀ conflict ∈ conflicts, conflict.member ≠ name) ∧
      later.store.descriptor? world.store.nextObject name =
        world.store.descriptor? base.prototype name := by
  rcases run_mixin_of_unlisted meaning rooted houses housesOther (.anywhere σ)
    (fun _ _ _ => trivial) trivial unlisted
    (fun another member => (discreet another member).along _) with
    ⟨conflicts, merged, ran, quiet, adds, unowned, journal⟩
  rcases yields_of_run_mixin meaning composer rooted houses housesOther raw ran adds journal with
    ⟨later, yields, _, resolves⟩
  refine ⟨conflicts, later, yields, quiet, (resolves name).trans ?_⟩
  exact adds.descriptor?_nextObject rooted houses.hasObject_prototype unowned

end Composing

end TraitComposition.Composer
