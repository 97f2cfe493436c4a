import TraitComposition.Proofs.Composition.Presence
import TraitComposition.Proofs.Merge.Unattended
import TraitComposition.Proofs.Merge.Weighing

/-!
Requirements and who fulfills them, in a merge that runs no user code. Under a name that
all sources use for methods, whichever of two methods is kept, it is never a requirement
if one of them is none. So once the destination resolves the name to an implementation it
always does, and the first source that has one brings it about.
-/
namespace TraitComposition

namespace Store

def Fulfills (store : Store) (object : ObjectId) (name : String) : Prop :=
  ∃ method, store.dataValue? object name = some (.procedure method) ∧
    store.isRequired method = false

theorem Fulfills.later {region : Region} {before after : Store} {object : ObjectId} {name : String}
    (fulfills : before.Fulfills object name) (changes : ChangesWithin region before after)
    (rooted : before.Rooted) (known : before.hasObject object = true)
    (outside : ∀ level ∈ before.ancestry object, ¬region level name) :
    after.Fulfills object name := by
  rcases fulfills with ⟨method, resolved, implemented⟩
  have there := hasProcedure_of_implemented implemented
  exact ⟨method, (changes.dataValue?_eq rooted known outside).trans resolved,
    (changes.extends_.isRequired there).trans implemented⟩

/-- Whether what a table enumerates under a name, if anything, is a method without a hook. -/
def BringsMethod (store : Store) (table : ObjectId) (name : String) : Prop :=
  name ∈ store.enumerableNames table →
    ∃ method, store.dataValue? table name = some (.procedure method) ∧
      store.hasProcedure method = true ∧ (store.procedure method).hook = none

def Provides (store : Store) (source : Value) (name : String) : Prop :=
  ∃ table, store.Fronts source table ∧ name ∈ store.enumerableNames table ∧
    store.Fulfills table name

end Store

namespace Merge

open Store (Underway)
open TraitComposition.Action (succeeded_of_bind)

variable {σ : Type} {plan : Plan} {world later : World σ} {name : String}

/-! ### Weighing -/

theorem isRequired_of_resolve (rivalry : Rivalry) (store : Store) (target : ObjectId)
    (earlier throughThis : List ObjectId)
    (implemented : store.isRequired rivalry.existing = false ∨
      store.isRequired rivalry.incoming = false) :
    match rivalry.resolve store target earlier throughThis with
    | .keepDestination => store.isRequired rivalry.existing = false
    | .incoming | .conflict _ => store.isRequired rivalry.incoming = false := by
  unfold Rivalry.resolve
  by_cases incoming : store.isRequired rivalry.incoming = true
  · simpa [incoming] using implemented
  · by_cases existing : store.isRequired rivalry.existing = true
    · simp [incoming, existing]
    · rw [Bool.not_eq_true] at incoming existing
      simp only [incoming, existing, Bool.false_eq_true, if_false]
      split <;> trivial

/-! ### Putting -/

section Putting

variable (raw : plan.definer = .raw) (known : world.store.hasObject plan.target = true)

include raw known

omit raw in
private theorem dataValue?_of_put {descriptor : Descriptor} {value : Value}
    (valued : descriptor.value? = some value)
    (ran : (put .exhausted plan name descriptor).run world = (.ok (), later)) :
    later.store.dataValue? plan.target name = some value := by
  have refuses : (Meaning.exhausted : Meaning σ).Refuses := fun _ _ _ => ⟨_, rfl⟩
  rcases own_of_put refuses known valued ran with ⟨stored, own, same⟩
  rw [Store.dataValue?, Store.descriptor?_of_own own]
  exact same

theorem fulfills_of_put {descriptor : Descriptor} {method : ProcedureId}
    (holds : descriptor.method? = some method)
    (implemented : world.store.isRequired method = false)
    (ran : (put .exhausted plan name descriptor).run world = (.ok (), later)) :
    later.store.Fulfills plan.target name := by
  have respects : Respects (Passage.merging σ plan.target fun _ => True) .exhausted plan name :=
    respects_merging raw trivial
  have merges := respects.put descriptor world known
  rw [ran] at merges
  have there := Store.hasProcedure_of_implemented implemented
  exact ⟨method, dataValue?_of_put known (Descriptor.value?_of_method? holds) ran,
    (merges.changes.extends_.isRequired there).trans implemented⟩

theorem fulfills_of_carryOut {descriptor : Descriptor} {incoming : ProcedureId}
    (method : descriptor.method? = some incoming) {held left : List Conflict}
    {resolution : Resolution}
    (outcome : match resolution with
      | .keepDestination => world.store.Fulfills plan.target name
      | .incoming | .conflict _ => world.store.isRequired incoming = false)
    (ran : (carryOut .exhausted plan name descriptor incoming held resolution).run world =
      (.ok left, later)) :
    later.store.Fulfills plan.target name := by
  cases resolution with
  | incoming | conflict =>
      rcases succeeded_of_bind ran with ⟨_, between, put, ran⟩
      cases ran
      exact fulfills_of_put raw known method outcome put
  | keepDestination =>
      rcases outcome with ⟨existing, resolved, implemented⟩
      rcases Option.bind_eq_some_iff.mp resolved with ⟨kept, described, valued⟩
      have holds : kept.method? = some existing := by
        rw [Descriptor.method?, valued]
        rfl
      rw [carryOut, Action.run_getStore_bind, described] at ran
      rcases succeeded_of_bind ran with ⟨_, between, put, ran⟩
      cases ran
      exact fulfills_of_put raw known holds implemented put

end Putting

/-! ### Methods of procedures -/

section Methods

variable (raw : plan.definer = .raw) (known : world.store.hasObject plan.target = true)
  (rooted : world.store.Rooted) {table owner : ObjectId} {descriptor : Descriptor}
  {incoming : ProcedureId} (found : world.store.lookup table name = some (owner, descriptor))
  (method : descriptor.method? = some incoming)
  (there : world.store.hasProcedure incoming = true)
  (plain : (world.store.procedure incoming).hook = none) {held left : List Conflict}
  (settled : world.store.Fulfills plan.target name ∨ world.store.isRequired incoming = false)

include raw known found method plain settled

private theorem fulfills_of_mixMember
    (ran : (mixMember .exhausted plan table name held).run world = (.ok left, later)) :
    later.store.Fulfills plan.target name := by
  rw [run_mixMember_of_unhooked .exhausted plan held found method plain] at ran
  split at ran
  · next skipped =>
    cases ran
    rw [Bool.and_eq_true] at skipped
    exact settled.resolve_right fun implemented => by simp [implemented] at skipped
  · next merged =>
    rcases succeeded_of_bind ran with ⟨_, between, put, ran⟩
    cases ran
    apply fulfills_of_put raw known method _ put
    rcases settled with ⟨existing, resolved, _⟩ | implemented
    · rcases Option.bind_eq_some_iff.mp resolved with ⟨_, described, _⟩
      have present : world.store.has plan.target name = true := by
        rw [Store.has, ← Option.isSome_map, ← Store.descriptor?, described, Option.isSome_some]
      simpa [present] using merged
    · exact implemented

include rooted there

private theorem fulfills_of_mixMethod {index : Nat} {ownChain : List ObjectId}
    (ran : (mixMethod .exhausted plan index table ownChain name held).run world =
      (.ok left, later)) :
    later.store.Fulfills plan.target name := by
  have silent : installs world.store table ownChain name
      (world.store.dataValue? plan.target name) = false := by
    rw [installs, found]
    simp only [method, plain, Option.isSome_none, Bool.false_and]
  rw [run_mixMethod_weighs .exhausted plan index ownChain held found method silent] at ran
  rcases rival_or_alone (world.store.dataValue? plan.target name) incoming with
    ⟨existing, different, resolved⟩ | alone
  · rcases exists_run_weigh plan index name (owner == table) ownChain different world with
      ⟨asked, earlier, throughThis, weighed, changes, _⟩
    rw [resolved, Action.run_bind_of_ok _ weighed] at ran
    have target := (changes.extends_.object _ known).1
    have same : asked.store.descriptor? plan.target name =
        world.store.descriptor? plan.target name :=
      changes.descriptor?_eq rooted known fun _ _ => id
    rw [Store.dataValue?, ← same, ← Store.dataValue?] at resolved
    have one : asked.store.isRequired existing = false ∨
        asked.store.isRequired incoming = false := by
      rcases settled with ⟨method, holds, implemented⟩ | implemented
      · rw [Store.dataValue?, ← same, ← Store.dataValue?, resolved] at holds
        cases holds
        have there := Store.hasProcedure_of_implemented implemented
        exact .inl ((changes.extends_.isRequired there).trans implemented)
      · exact .inr ((changes.extends_.isRequired there).trans implemented)
    have outcome := isRequired_of_resolve ⟨name, incoming, existing, owner == table, ownChain⟩
      asked.store plan.target earlier throughThis one
    generalize Rivalry.resolve _ asked.store plan.target earlier throughThis = resolution
      at ran outcome
    apply fulfills_of_carryOut raw target method _ ran
    cases resolution with
    | incoming | conflict => exact outcome
    | keepDestination => exact ⟨existing, resolved, outcome⟩
  · rw [weigh_of_no_rival plan _ _ _ _ _ alone, Action.run_pure_bind] at ran
    apply fulfills_of_carryOut raw known method _ ran
    rcases settled with ⟨existing, resolved, implemented⟩ | implemented
    · rwa [alone existing resolved] at implemented
    · exact implemented

end Methods

/-! ### Names of a source -/

section Names

open TraitComposition.Action (Follows)

variable {start : Store} {target : ObjectId} (rooted : start.Rooted)
  {merge : String → List Conflict → Action σ (List Conflict)}
  (respects : ∀ another held,
    Follows (Passage.merging σ target (· = another)) (merge another held))
  (concrete : Prop)

include rooted respects

theorem fulfills_of_names {names : List String}
    (turn : name ∈ names → ∀ {now later : World σ} {held left : List Conflict},
      Underway start target now.store → (merge name held).run now = (.ok left, later) →
      now.store.Fulfills target name ∨ concrete → later.store.Fulfills target name)
    {now later : World σ} {held left : List Conflict} (underway : Underway start target now.store)
    (ran : (names.foldlM (fun held name => merge name held) held).run now = (.ok left, later))
    (settled : now.store.Fulfills target name ∨ name ∈ names ∧ concrete) :
    later.store.Fulfills target name := by
  induction names generalizing now held with
  | nil =>
      cases ran
      exact settled.resolve_right fun listed => by simp at listed
  | cons another names induction =>
      rw [List.foldlM_cons] at ran
      rcases succeeded_of_bind ran with ⟨between, world, ranFirst, ranRest⟩
      have merges := respects another held now underway.known
      rw [ranFirst] at merges
      apply induction (fun listed => turn (List.mem_cons_of_mem _ listed)) (underway.later merges)
        ranRest
      by_cases equal : name = another
      · subst another
        refine .inl (turn (List.mem_cons_self ..) underway ranFirst ?_)
        exact settled.imp_right And.right
      · rcases settled with fulfills | ⟨listed, provided⟩
        · refine .inl (fulfills.later merges.changes (underway.rootedNow rooted) underway.known ?_)
          exact fun level member both => equal both.2
        · exact .inr ⟨List.mem_of_ne_of_mem equal listed, provided⟩

end Names

/-! ### Sources -/

section Sources

variable {start : Store} (rooted : start.Rooted) (absent : start.hasObject plan.target = false)

section Tables

variable {now : Store} (underway : Underway start plan.target now) {table : ObjectId}
  (known : start.hasObject table = true)

include rooted absent underway known

private theorem mem_enumerableNames_of_underway (name : String) :
    name ∈ now.enumerableNames table ↔ name ∈ start.enumerableNames table := by
  rw [Store.mem_enumerableNames_iff, Store.mem_enumerableNames_iff,
    underway.descriptor?_eq rooted absent known]

theorem exists_method_of_underway (brings : start.BringsMethod table name)
    (listed : name ∈ start.enumerableNames table) :
    ∃ owner descriptor incoming, now.lookup table name = some (owner, descriptor) ∧
      descriptor.method? = some incoming ∧ now.hasProcedure incoming = true ∧
      (now.procedure incoming).hook = none ∧
      (start.Fulfills table name → now.isRequired incoming = false) := by
  rcases brings listed with ⟨incoming, holds, there, plain⟩
  have extends_ := underway.merges.changes.extends_
  have same := underway.descriptor?_eq rooted absent known name
  rcases Option.bind_eq_some_iff.mp holds with ⟨_, described, valued⟩
  rw [← same] at described
  rcases Option.map_eq_some_iff.mp described with ⟨⟨owner, descriptor⟩, found, rfl⟩
  refine ⟨owner, descriptor, incoming, found, ?_, ?_, ?_, fun ⟨method, resolved, implemented⟩ => ?_⟩
  · rw [Descriptor.method?, valued]
    rfl
  · exact (extends_.procedure incoming there).1
  · exact (extends_.hook there).trans plain
  · rw [holds] at resolved
    cases resolved
    exact (extends_.isRequired there).trans implemented

end Tables

variable {now later : World σ} {held left : List Conflict} {source : Value}

include rooted absent in
theorem fulfills_of_table {table : ObjectId} (fronts : start.Fronts source table)
    (known : start.hasObject table = true) (brings : start.BringsMethod table name)
    {merge : String → List Conflict → Action σ (List Conflict)}
    (respects : ∀ another held,
      Action.Follows (Passage.merging σ plan.target (· = another)) (merge another held))
    (turn : ∀ {now later : World σ} {held left : List Conflict} {owner : ObjectId}
      {descriptor : Descriptor} {incoming : ProcedureId},
      Underway start plan.target now.store →
      now.store.lookup table name = some (owner, descriptor) →
      descriptor.method? = some incoming → now.store.hasProcedure incoming = true →
      (now.store.procedure incoming).hook = none →
      now.store.Fulfills plan.target name ∨ now.store.isRequired incoming = false →
      (merge name held).run now = (.ok left, later) → later.store.Fulfills plan.target name)
    (underway : Underway start plan.target now.store)
    (ran : ((now.store.enumerableNames table).foldlM (fun held name => merge name held) held).run
      now = (.ok left, later))
    (settled : now.store.Fulfills plan.target name ∨ start.Provides source name) :
    later.store.Fulfills plan.target name := by
  have listed := mem_enumerableNames_of_underway rooted absent underway known name
  apply fulfills_of_names rooted respects (start.Fulfills table name)
    (fun member now later held left underway ran settled => ?_) underway ran
    (settled.imp_right fun provides => ?_)
  · rcases exists_method_of_underway rooted absent underway known brings (listed.mp member) with
      ⟨owner, descriptor, incoming, found, method, there, plain, implemented⟩
    exact turn underway found method there plain (settled.imp_right implemented) ran
  · rcases provides with ⟨other, alsoFronts, enumerates, fulfills⟩
    rw [alsoFronts.unique fronts] at enumerates fulfills
    exact ⟨listed.mpr enumerates, fulfills⟩

variable (tables : start.HasTables) (raw : plan.definer = .raw) {index : Nat}

include rooted absent tables raw

theorem fulfills_of_mixSource (present : start.Present source)
    (brings : ∀ table, start.Fronts source table → start.BringsMethod table name)
    (underway : Underway start plan.target now.store)
    (ran : (mixSource .exhausted plan index source held).run now = (.ok left, later))
    (settled : now.store.Fulfills plan.target name ∨ start.Provides source name) :
    later.store.Fulfills plan.target name := by
  have respects (another : String) :
      Respects (Passage.merging σ plan.target (· = another)) .exhausted plan another :=
    respects_merging raw rfl
  cases source with
  | object table =>
      have fronts : start.Fronts (.object table) table := by
        cases present
        exact .table ‹_›
      exact fulfills_of_table rooted absent fronts (fronts.hasObject tables) (brings table fronts)
        (fun another held => (respects another).mixMember table held)
        (fun underway found method _ plain settled ran =>
          fulfills_of_mixMember raw underway.known found method plain settled ran)
        underway ran settled
  | procedure procedure =>
      have asks : Asks (Passage.merging σ plan.target fun _ => False) := asks_merging _ _
      have keeps {before after : Store} (underway : Underway start plan.target before)
          (merges : Store.MergesInto plan.target (fun _ => False) before after)
          (fulfills : before.Fulfills plan.target name) : after.Fulfills plan.target name :=
        fulfills.later merges.changes (underway.rootedNow rooted) underway.known
          fun _ _ both => both.2
      rw [mixSource, Action.run_edit_bind, Action.run_edit_bind, Action.run_getStore_bind] at ran
      by_cases fronted : ∃ table, start.Fronts (.procedure procedure) table
      · rcases fronted with ⟨table, fronts⟩
        rw [(fronts.extends underway.merges.changes.extends_).prototypeOf_eq] at ran
        have asked := asks.prototypes [.procedure procedure] now underway.known
        exact fulfills_of_table rooted absent fronts (fronts.hasObject tables)
          (brings table fronts)
          (fun another held => (respects another).mixMethod index table _ held)
          (fun underway found method there plain settled ran => fulfills_of_mixMethod raw
            underway.known (underway.rootedNow rooted) found method there plain settled ran)
          (underway.later asked) ran (settled.imp_left (keeps underway asked))
      · rcases underway.blank_of_prototypeOf present fronted with ⟨different, blank⟩
        have tabled := asks procedure now underway.known
        have underwayThen := underway.later tabled
        have asked : Store.MergesInto plan.target _ (now.store.prototypeOf procedure).2 _ :=
          asks.prototypes [.procedure procedure]
            { now with store := (now.store.prototypeOf procedure).2 } underwayThen.known
        have nothing := (asked.blank _ different blank).enumerableNames_eq_nil
        rw [Action.run_edit] at nothing
        rw [nothing] at ran
        cases ran
        have fulfills : now.store.Fulfills plan.target name := by
          apply settled.resolve_right
          rintro ⟨table, fronts, _⟩
          exact fronted ⟨table, fronts⟩
        exact keeps underwayThen asked (keeps underway tabled fulfills)
  | _ => cases ran

/-- In a whole merge the name is fulfilled if some source provides it, in whatever place. -/
theorem fulfills_of_mixSources {sources : List Value}
    (present : ∀ source ∈ sources, start.Present source)
    (brings : ∀ source ∈ sources, ∀ table, start.Fronts source table →
      start.BringsMethod table name)
    (underway : Underway start plan.target now.store)
    (ran : (mixSources .exhausted plan index sources held).run now = (.ok left, later))
    (settled : now.store.Fulfills plan.target name ∨
      ∃ source ∈ sources, start.Provides source name) :
    later.store.Fulfills plan.target name := by
  induction sources generalizing index now held with
  | nil =>
      cases ran
      exact settled.resolve_right fun ⟨_, member, _⟩ => nomatch member
  | cons source sources induction =>
      rcases succeeded_of_bind ran with ⟨between, world, ranFirst, ranRest⟩
      have merges := follows_mixSource_merging raw index source held now underway.known
      rw [ranFirst] at merges
      have turn := fulfills_of_mixSource rooted absent tables raw
        (present source (List.mem_cons_self ..)) (brings source (List.mem_cons_self ..)) underway
        ranFirst
      apply induction (fun other member => present other (List.mem_cons_of_mem _ member))
        (fun other member => brings other (List.mem_cons_of_mem _ member)) (underway.later merges)
        ranRest
      rcases settled with fulfills | ⟨other, member, provides⟩
      · exact .inl (turn (.inl fulfills))
      · rcases List.mem_cons.mp member with rfl | member
        · exact .inl (turn (.inr provides))
        · exact .inr ⟨other, member, provides⟩

end Sources

end Merge

end TraitComposition
