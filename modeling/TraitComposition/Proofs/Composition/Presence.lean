import TraitComposition.Proofs.Composition.Composing

/-!
Sources that are there. A composite type is in a store in full if its flattened tables
are objects of the store, its own among them. Types come about in full: composing sources
that are there leads to one, and whatever happens later, it stays.
-/
namespace TraitComposition

namespace Store

/-! ### Tables of procedures -/

def HasTables (store : Store) : Prop :=
  ∀ procedure table, (store.procedure procedure).table = some table →
    store.hasObject table = true

private theorem hasTables_iff {store : Store} :
    store.HasTables ↔ ∀ index < store.procedures.size,
      (store.procedure ⟨index⟩).table.all store.hasObject = true := by
  constructor
  · intro tables index _
    exact (Option.all_eq_true _ _).mpr fun table made => tables ⟨index⟩ table made
  · intro each procedure table made
    cases known : store.hasProcedure procedure with
    | true =>
        exact (Option.all_eq_true _ _).mp (each procedure.index (hasProcedure_iff.mp known)) table
          made
    | false =>
        rw [procedure_of_not_hasProcedure known] at made
        cases made

instance (store : Store) : Decidable store.HasTables :=
  decidable_of_iff' _ hasTables_iff

theorem hasTables_initial : Store.initial.HasTables := by
  intro procedure table made
  rcases procedure with ⟨_ | index⟩
  · cases made
  · cases made

private theorem HasTables.of_procedure_eq {before after : Store} (tables : before.HasTables)
    (extends_ : before.Extends after)
    (same : ∀ procedure, after.procedure procedure = before.procedure procedure) :
    after.HasTables := by
  intro procedure table made
  rw [same] at made
  exact (extends_.object table (tables procedure table made)).1

private theorem HasTables.addProcedure {store : Store} (tables : store.HasTables)
    {procedure : Procedure} (tableless : procedure.table = none) :
    (store.addProcedure procedure).2.HasTables := by
  intro reference table made
  rcases procedure_addProcedure_cases store procedure reference with old | new
  · rw [old] at made
    exact tables reference table made
  · rw [new, tableless] at made
    cases made

theorem HasTables.prototypeOf {store : Store} (tables : store.HasTables)
    (procedure : ProcedureId) : (store.prototypeOf procedure).2.HasTables := by
  rcases store.prototypeOf_cases procedure with unchanged | ⟨_, made⟩
  · rw [unchanged]
    exact tables
  · rw [made]
    intro reference table has
    rw [procedure_updateProcedure] at has
    split at has
    · cases has
      exact hasObject_createObject_self store none
    · exact hasObject_createObject none (tables reference table has)

private theorem HasTables.step {before after : Store} (tables : before.HasTables)
    (step : Step before after) : after.HasTables := by
  have extends_ := Extends.of_step step
  cases step with
  | addProcedure tableless => exact tables.addProcedure tableless
  | addComposite composer own =>
      intro procedure table made
      exact tables.addProcedure rfl procedure table made
  | prototypeOf procedure => exact tables.prototypeOf procedure
  | createObject | insert | update | define | erase | addLayer | setStandalone | setDefiner
  | report =>
      exact tables.of_procedure_eq extends_ fun _ => rfl

theorem HasTables.evolves {before after : Store} (tables : before.HasTables)
    (evolution : before.Evolves after) : after.HasTables := by
  induction evolution with
  | refl => exact tables
  | tail _ step induction => exact induction.step step

/-! ### Tables of sources -/

theorem Fronts.hasObject {store : Store} {source : Value} {table : ObjectId}
    (fronts : store.Fronts source table) (tables : store.HasTables) :
    store.hasObject table = true := by
  cases fronts with
  | type houses => exact houses.hasObject_prototype
  | plain _ made => exact tables _ _ made
  | table known => exact known

private theorem hasObject_prototypeOf {store : Store} (tables : store.HasTables)
    {reference : ProcedureId} (plain : store.isPlain reference = true) :
    (store.prototypeOf reference).2.hasObject (store.prototypeOf reference).1 = true := by
  cases made : (store.procedure reference).table with
  | some table =>
      rw [prototypeOf_of_table plain made]
      exact tables reference table made
  | none =>
      rw [prototypeOf_of_tableless plain made]
      exact hasObject_createObject_self store none

private theorem Present.hasObject_sourcePrototypes {store : Store} {source : Value}
    (present : store.Present source) (tables : store.HasTables) :
    ∀ table ∈ (sourcePrototypes source store).1,
      (sourcePrototypes source store).2.hasObject table = true := by
  intro table member
  cases present with
  | type houses =>
      rw [sourcePrototypes_of_composite? houses.found] at member ⊢
      exact houses.known table member
  | plain plain =>
      rw [sourcePrototypes, bases?_of_isPlain plain] at member ⊢
      rw [List.mem_singleton.mp member]
      exact hasObject_prototypeOf tables plain
  | table known =>
      rw [List.mem_singleton.mp member]
      exact known

theorem hasObject_of_mem_allPrototypes :
    ∀ {sources : List Value} {store : Store}, store.HasTables →
      (∀ source ∈ sources, store.Present source) →
      ∀ table ∈ (allPrototypes sources store).1,
        (allPrototypes sources store).2.hasObject table = true
  | [], _, _, _, _, member => nomatch member
  | source :: sources, store, tables, present, table, member => by
      have first := evolves_sourcePrototypes source store
      have rest := evolves_allPrototypes sources (sourcePrototypes source store).2
      rcases List.mem_append.mp member with contributed | contributed
      · have known := (present source (List.mem_cons_self ..)).hasObject_sourcePrototypes tables
          table contributed
        exact (rest.extends.object table known).1
      · apply hasObject_of_mem_allPrototypes (tables.evolves first) _ table contributed
        intro other inside
        exact (present other (List.mem_cons_of_mem _ inside)).extends first.extends

end Store

/-! ### Compositions of what is there -/

open TraitComposition.Action (Follows succeeded_of_bind)

theorem Sources.hasObject_of_delegate {σ : Type} {base : Value} {world later : World σ}
    {target : ObjectId} (ran : (Sources.delegate base).run world = (.ok target, later)) :
    later.store.hasObject target = true := by
  cases base with
  | object object =>
      cases ran
      exact Store.hasObject_createObject_self world.store (some object)
  | procedure procedure =>
      cases ran
      exact Store.hasObject_createObject_self _ _
  | undefined | null | boolean | number | text | list => cases ran

namespace Composer

variable {σ : Type} {meaning : Meaning σ} (evolving : meaning.Evolving) {composer : Composer}
  {world later : World σ}

theorem mem_chainSources {prototype : ObjectId} {sources : List Value} {source : Value}
    (member : source ∈ chainSources prototype sources) :
    source = .object prototype ∨ source ∈ sources := by
  induction sources using chainSources.induct with
  | case1 => cases member
  | case2 table =>
      exact .inl (List.mem_singleton.mp member)
  | case3 first sources other induction =>
      rw [chainSources] at member
      · rcases List.mem_cons.mp member with rfl | member
        · exact .inr (List.mem_cons_self ..)
        · rcases induction member with equal | inside
          · exact .inl equal
          · exact .inr (List.mem_cons_of_mem _ inside)
      · exact other

theorem exists_houses_enterType (composer : Composer) (sources : List Value)
    {prototype : ObjectId} {store : Store} (known : store.hasObject prototype = true)
    (tables : ∀ table ∈ (Store.prototypes (chainSources prototype sources) store).1,
      (Store.prototypes (chainSources prototype sources) store).2.hasObject table = true) :
    ∃ built : Composite, (composer.enterType sources prototype store).2.Houses
        (composer.enterType sources prototype store).1 built ∧
      built.procedure = (composer.enterType sources prototype store).1 ∧
      built.prototype = prototype ∧ built.definer = none := by
  have asked := Store.evolves_prototypes (chainSources prototype sources) store
  refine ⟨_, ⟨composer.composite?_enterType sources prototype store, ?_, ?_⟩, rfl, rfl, rfl⟩
  · exact FirstSeen.mem_insert.mpr (.inr rfl)
  · intro table member
    apply ((Store.Extends.of_addComposite _ prototype _ composer).object table _).1
    rcases FirstSeen.mem_insert.mp member with contributed | rfl
    · exact tables table contributed
    · exact (asked.extends.object _ known).1

include evolving

theorem hasObject_of_composeTable {base : Value} {sources : List Value} {prototype : ObjectId}
    (known : ∀ table, base = .object table → world.store.hasObject table = true)
    (ran : (composer.composeTable meaning base sources).run world = (.ok prototype, later)) :
    later.store.hasObject prototype = true := by
  unfold composeTable at ran
  split at ran
  · cases ran
    exact known _ rfl
  · rcases succeeded_of_bind ran with ⟨target, between, delegated, ran⟩
    have evolution := (Follows.bind (Definer.evolving_ofValue evolving base) fun definer =>
      Follows.bind (evolving_mixin evolving target sources definer) fun conflicts =>
        Follows.bind (composer.evolving_report conflicts) fun _ => Follows.pure target) between
    rw [ran] at evolution
    rcases succeeded_of_bind ran with ⟨_, _, _, ran⟩
    rcases succeeded_of_bind ran with ⟨_, _, _, ran⟩
    rcases succeeded_of_bind ran with ⟨_, _, _, ran⟩
    cases ran
    exact (evolution.1.extends.object _ (Sources.hasObject_of_delegate delegated)).1

theorem houses_of_compose {sources : List Value} {type : ProcedureId}
    (tables : world.store.HasTables) (present : ∀ source ∈ sources, world.store.Present source)
    (ran : (composer.compose meaning sources).run world = (.ok type, later)) :
    ∃ composite, later.store.Houses type composite ∧ composite.definer = none := by
  rcases compose_succeeded ran with ⟨prototype, merged, ranTable, rfl, rfl⟩
  have first : world.store.Present (sources.headD .undefined) := by
    cases sources with
    | nil => cases ran
    | cons source sources => exact present source (List.mem_cons_self ..)
  have evolution := composer.evolving_composeTable evolving (sources.headD .undefined)
    sources.tail world
  rw [ranTable] at evolution
  have known := hasObject_of_composeTable evolving (fun table equal => by
    cases equal ▸ first
    assumption) ranTable
  have chain : ∀ source ∈ chainSources prototype sources, merged.store.Present source := by
    intro source member
    rcases mem_chainSources member with rfl | inside
    · exact .table known
    · exact (present source inside).extends evolution.1.extends
  rcases exists_houses_enterType composer sources known fun table member =>
    Store.hasObject_of_mem_allPrototypes (tables.evolves evolution.1) chain table
      (FirstSeen.mem_ofList.mp member) with ⟨built, houses, _, _, raw⟩
  exact ⟨built, houses, raw⟩

end Composer

end TraitComposition
