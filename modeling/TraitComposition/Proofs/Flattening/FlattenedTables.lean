import TraitComposition.Proofs.Composition.Creation
import TraitComposition.Proofs.Composition.Recomposing

/-!
Flattened tables. A composite type lists the tables of its sources once each and its own
table last. Its own table is either a single bare table as it is, or a new one that no
source can know of, so it is never met earlier in the list.
-/
namespace TraitComposition

open TraitComposition.Action (run_bind_of_ok succeeded_of_bind)

variable {σ : Type}

namespace FirstSeen

variable {α : Type} [DecidableEq α] [Ord α] [Std.TransOrd α] [Std.LawfulEqOrd α]

private theorem ofList_append_singleton (items : List α) (item : α) :
    ofList (items ++ [item]) = insert (ofList items) item := by
  rw [ofList_eq_union, ofList_eq_union, union_append]
  rfl

omit [Ord α] [Std.TransOrd α] [Std.LawfulEqOrd α] in
private theorem insert_of_not_mem {items : List α} {item : α} (fresh : item ∉ items) :
    insert items item = items ++ [item] :=
  if_neg fresh

end FirstSeen

namespace Store

/-! ### Tables of several sources -/

private theorem allPrototypes_append (second : List Value) :
    ∀ (first : List Value) (store : Store),
      allPrototypes (first ++ second) store =
        ((allPrototypes first store).1 ++
            (allPrototypes second (allPrototypes first store).2).1,
          (allPrototypes second (allPrototypes first store).2).2)
  | [], _ => rfl
  | source :: first, store => by
      simp only [List.cons_append, allPrototypes, allPrototypes_append second first,
        List.append_assoc]

theorem Present.exists_fronts {source : Value} :
    ∀ {sources : List Value} {store : Store}, source ∈ sources → store.Present source →
      ∃ table ∈ (allPrototypes sources store).1,
        (allPrototypes sources store).2.Fronts source table
  | first :: sources, store, member, present => by
      have asked := (evolves_sourcePrototypes first store).extends
      have rest := (evolves_allPrototypes sources (sourcePrototypes first store).2).extends
      rcases List.mem_cons.mp member with rfl | member
      · have own : ∃ table ∈ (sourcePrototypes source store).1,
            (sourcePrototypes source store).2.Fronts source table := by
          cases present with
          | type houses =>
              rw [sourcePrototypes_of_composite? houses.found]
              exact ⟨_, houses.own, .type houses⟩
          | @plain reference plain =>
              have fronts := (Present.plain plain).fronts
              rw [sourcePrototypes, bases?_of_isPlain plain]
              exact ⟨_, List.mem_singleton_self _, fronts⟩
          | table known => exact ⟨_, List.mem_singleton_self _, .table known⟩
        rcases own with ⟨table, contributed, fronts⟩
        exact ⟨table, List.mem_append_left _ contributed, fronts.extends rest⟩
      · rcases exists_fronts member (present.extends asked) with ⟨table, contributed, fronts⟩
        exact ⟨table, List.mem_append_right _ contributed, fronts⟩

theorem subset_allPrototypes_of_type {type : ProcedureId} {composite : Composite} :
    ∀ {sources : List Value} {store : Store}, .procedure type ∈ sources →
      store.composite? type = some composite →
      composite.bases.prototypes ⊆ (allPrototypes sources store).1
  | first :: sources, store, member, found => by
      intro table inside
      rcases List.mem_cons.mp member with rfl | member
      · rw [allPrototypes, sourcePrototypes_of_composite? found]
        exact List.mem_append_left _ inside
      · rcases (evolves_sourcePrototypes first store).extends.composite? found with
          ⟨definer, kept⟩
        exact List.mem_append_right _ (subset_allPrototypes_of_type member kept inside)

/-! ### A table of nobody's -/

structure Unclaimed (store : Store) (object : ObjectId) : Prop where
  known : store.hasObject object = true
  nobodys : ∀ procedure, (store.procedure procedure).table ≠ some object

namespace Unclaimed

variable {store : Store} {object : ObjectId}

private theorem of_createObject (tables : store.HasTables) (parent : Option ObjectId) :
    (store.createObject parent).2.Unclaimed store.nextObject where
  known := hasObject_createObject_self store parent
  nobodys procedure made := by
    have known := tables procedure _ made
    rw [hasObject_nextObject_eq_false] at known
    cases known

private theorem step {after : Store} (unclaimed : store.Unclaimed object)
    (step : Step store after) :
    after.Unclaimed object where
  known := ((Extends.of_step step).object object unclaimed.known).1
  nobodys := by
    have same {changed : Store}
        (procedures : ∀ reference, changed.procedure reference = store.procedure reference)
        (reference : ProcedureId) : (changed.procedure reference).table ≠ some object := by
      rw [procedures]
      exact unclaimed.nobodys reference
    have added {procedure : Procedure} (tableless : procedure.table = none)
        (reference : ProcedureId) :
        ((store.addProcedure procedure).2.procedure reference).table ≠ some object := by
      rcases procedure_addProcedure_cases store procedure reference with old | new
      · rw [old]
        exact unclaimed.nobodys reference
      · rw [new, tableless]
        exact nofun
    cases step with
    | addProcedure tableless => exact added tableless
    | addComposite composer own => exact added rfl
    | prototypeOf procedure =>
        intro reference
        rcases store.prototypeOf_cases procedure with unchanged | ⟨_, made⟩
        · rw [unchanged]
          exact unclaimed.nobodys reference
        · rw [made, procedure_updateProcedure]
          split
          · intro equal
            exact nextObject_ne unclaimed.known (Option.some.inj equal)
          · exact unclaimed.nobodys reference
    | createObject | insert | update | define | erase | addLayer | setStandalone | setDefiner
    | report => exact same fun _ => rfl

private theorem evolves {after : Store} (unclaimed : store.Unclaimed object)
    (evolution : store.Evolves after) : after.Unclaimed object := by
  induction evolution with
  | refl => exact unclaimed
  | tail _ step induction => exact induction.step step

theorem not_mem_allPrototypes {old : Store} (absent : old.hasObject object = false) :
    ∀ {sources : List Value} {store : Store}, old.Extends store → store.Unclaimed object →
      (∀ source ∈ sources, old.Present source) → object ∉ (allPrototypes sources store).1
  | [], _, _, _, _ => List.not_mem_nil
  | source :: sources, store, extends_, unclaimed, present => by
      rw [List.forall_mem_cons] at present
      have asked := evolves_sourcePrototypes source store
      have rest := not_mem_allPrototypes absent (extends_.trans asked.extends)
        (unclaimed.evolves asked) present.2
      rw [allPrototypes, List.mem_append, not_or]
      refine ⟨?_, rest⟩
      cases present.1 with
      | type houses =>
          rcases extends_.composite? houses.found with ⟨definer, kept⟩
          rw [sourcePrototypes_of_composite? kept]
          intro member
          rw [houses.known object member] at absent
          cases absent
      | @plain reference plain =>
          have plainNow := extends_.isPlain plain
          rw [sourcePrototypes, bases?_of_isPlain plainNow, List.mem_singleton]
          rintro rfl
          cases made : (store.procedure reference).table with
          | some table =>
              rw [prototypeOf_of_table plainNow made] at unclaimed
              exact unclaimed.nobodys reference made
          | none =>
              rw [prototypeOf_of_tableless plainNow made] at unclaimed
              exact nextObject_ne unclaimed.known rfl
      | @table other known =>
          rw [sourcePrototypes, List.mem_singleton]
          rintro rfl
          rw [known] at absent
          cases absent

end Unclaimed

end Store

/-! ### The tables of a composition -/

namespace Store

def CoversConstructors (store : Store) (built : Composite) : Prop :=
  ∀ constructor ∈ built.bases.constructors, ∃ table ∈ built.bases.prototypes,
    store.Fronts (.procedure constructor) table

private theorem CoversConstructors.extends {before after : Store} {built : Composite}
    (covers : before.CoversConstructors built) (extends_ : before.Extends after) :
    after.CoversConstructors built := by
  intro constructor member
  rcases covers constructor member with ⟨table, inside, fronts⟩
  exact ⟨table, inside, fronts.extends extends_⟩

structure FlatTables (store : Store) (built : Composite) (sources : List Value) : Prop where
  nodup : built.bases.prototypes.Nodup
  last : built.bases.prototypes.getLast? = some built.prototype
  covers : store.CoversConstructors built
  types : ∀ type source, .procedure type ∈ sources → store.composite? type = some source →
    source.bases.prototypes ⊆ built.bases.prototypes
  tables : ∀ bare, .object bare ∈ sources.dropLast → bare ∈ built.bases.prototypes
  single : ∀ bare, sources = [.object bare] → built.prototype = bare
  line : ∀ first rest, sources = .procedure first :: rest →
    ∃ table, store.Fronts (.procedure first) table ∧
      store.isPrototypeOf table built.prototype = true

theorem Present.houses_of_composite? {before after : Store} {type : ProcedureId}
    {composite : Composite} (present : before.Present (.procedure type))
    (extends_ : before.Extends after) (found : after.composite? type = some composite) :
    ∃ earlier : Composite, before.Houses type earlier ∧ earlier.bases = composite.bases := by
  cases present with
  | @type _ earlier houses =>
      rcases extends_.composite? houses.found with ⟨definer, kept⟩
      cases found.symm.trans kept
      exact ⟨earlier, houses, rfl⟩
  | plain plain =>
      rw [composite?_of_isPlain (extends_.isPlain plain)] at found
      cases found

private theorem FlatTables.extends {before after : Store} {built : Composite} {sources : List Value}
    (flat : before.FlatTables built sources) (present : ∀ source ∈ sources, before.Present source)
    (extends_ : before.Extends after) (rooted : before.Rooted) (rootedAfter : after.Rooted)
    (definer : Option ProcedureId) :
    after.FlatTables { built with definer := definer } sources where
  nodup := flat.nodup
  last := flat.last
  covers := flat.covers.extends extends_
  types type source member found := by
    rcases (present _ member).houses_of_composite? extends_ found with ⟨earlier, houses, same⟩
    rw [← same]
    exact flat.types type earlier member houses.found
  tables := flat.tables
  single := flat.single
  line first rest equal := by
    rcases flat.line first rest equal with ⟨table, fronts, delegates⟩
    exact ⟨table, fronts.extends extends_, extends_.isPrototypeOf rooted rootedAfter delegates⟩

end Store

namespace Sources

variable {base : Value} {world later : World σ} {target : ObjectId}
  (ran : (delegate base).run world = (.ok target, later))

include ran

theorem unclaimed_of_delegate (tables : world.store.HasTables) : later.store.Unclaimed target := by
  cases base with
  | object object =>
      cases ran
      exact .of_createObject tables (some object)
  | procedure procedure =>
      cases ran
      exact .of_createObject (tables.prototypeOf procedure) _
  | undefined | null | boolean | number | text | list => cases ran

private theorem exists_fronts_of_delegate (present : world.store.Present base) :
    ∃ table, later.store.Fronts base table := by
  cases base with
  | object object =>
      cases ran
      cases present with
      | table known => exact ⟨object, .table (Store.hasObject_createObject _ known)⟩
  | procedure procedure =>
      cases ran
      exact ⟨_, present.fronts.extends (Store.Extends.of_createObject _ _)⟩
  | undefined | null | boolean | number | text | list => cases ran

end Sources

namespace Composer

def contributors : List Value → List Value
  | [] => []
  | [.object _] => []
  | source :: sources => source :: contributors sources

private theorem contributors_subset (sources : List Value) : contributors sources ⊆ sources := by
  induction sources using contributors.induct with
  | case1 => exact List.Subset.refl _
  | case2 bare => exact List.nil_subset _
  | case3 source sources other induction =>
      rw [contributors]
      · exact List.cons_subset_cons source induction
      · exact other

private theorem mem_contributors_of_procedure {procedure : ProcedureId} {sources : List Value}
    (member : .procedure procedure ∈ sources) : .procedure procedure ∈ contributors sources := by
  induction sources using contributors.induct with
  | case1 => exact member
  | case2 bare => cases List.mem_singleton.mp member
  | case3 source sources other induction =>
      rw [contributors]
      · rw [List.mem_cons] at member ⊢
        exact member.imp_right induction
      · exact other

private theorem mem_contributors_of_mem_dropLast {source : Value} {sources : List Value}
    (member : source ∈ sources.dropLast) : source ∈ contributors sources := by
  induction sources using contributors.induct with
  | case1 | case2 => cases member
  | case3 first sources other induction =>
      rw [contributors]
      · cases sources with
        | nil => cases member
        | cons second sources =>
            rw [List.dropLast_cons_cons, List.mem_cons] at member
            rw [List.mem_cons]
            exact member.imp_right induction
      · exact other

private theorem chainSources_eq_or (prototype : ObjectId) (sources : List Value) :
    chainSources prototype sources = contributors sources ∨
      chainSources prototype sources = contributors sources ++ [.object prototype] := by
  induction sources using contributors.induct with
  | case1 => exact .inl rfl
  | case2 bare => exact .inr rfl
  | case3 source sources other induction =>
      rw [contributors, chainSources]
      · exact induction.imp (congrArg (source :: ·)) (congrArg (source :: ·))
      · exact other
      · exact other

def listedTables (prototype : ObjectId) (sources : List Value) (store : Store) : List ObjectId :=
  FirstSeen.insert (Store.prototypes (chainSources prototype sources) store).1 prototype

theorem listedTables_eq (prototype : ObjectId) (sources : List Value) (store : Store) :
    listedTables prototype sources store =
        FirstSeen.insert
          (FirstSeen.ofList (Store.allPrototypes (contributors sources) store).1) prototype ∧
      (Store.prototypes (chainSources prototype sources) store).2 =
        (Store.allPrototypes (contributors sources) store).2 := by
  rw [listedTables]
  rcases chainSources_eq_or prototype sources with same | more
  · rw [same]
    exact ⟨rfl, rfl⟩
  · rw [more, Store.prototypes, Store.allPrototypes_append]
    have own (store : Store) : Store.allPrototypes [.object prototype] store =
        ([prototype], store) := rfl
    refine ⟨?_, by rw [own]⟩
    dsimp only
    rw [own, FirstSeen.ofList_append_singleton, FirstSeen.insert_eq_self]
    exact FirstSeen.mem_insert.mpr (.inr rfl)

private theorem mem_listedTables {prototype table : ObjectId} {sources : List Value} {store : Store}
    (contributed : table ∈ (Store.allPrototypes (contributors sources) store).1) :
    table ∈ listedTables prototype sources store := by
  rw [(listedTables_eq prototype sources store).1]
  exact FirstSeen.mem_insert.mpr (.inl (FirstSeen.mem_ofList.mpr contributed))

section Entered

variable {start merged : Store} (extends_ : start.Extends merged) {sources : List Value}
  (prototype : ObjectId)

include extends_

private theorem subset_listedTables_of_type {inner : ProcedureId} {source : Composite}
    (member : .procedure inner ∈ sources) (found : start.composite? inner = some source) :
    source.bases.prototypes ⊆ listedTables prototype sources merged := by
  rcases extends_.composite? found with ⟨definer, kept⟩
  have subset := Store.subset_allPrototypes_of_type (mem_contributors_of_procedure member) kept
  exact fun table inside => mem_listedTables (subset inside)

variable (composer : Composer) (present : ∀ source ∈ sources, start.Present source)

include present

private theorem exists_listedTables_of_contributor {source : Value}
    (member : source ∈ contributors sources) :
    ∃ table ∈ listedTables prototype sources merged,
      (composer.enterType sources prototype merged).2.Fronts source table := by
  have entering : (Store.allPrototypes (contributors sources) merged).2.Extends
      (composer.enterType sources prototype merged).2 := by
    rw [← (listedTables_eq prototype sources merged).2]
    exact .of_addComposite _ prototype _ composer
  rcases ((present source (contributors_subset _ member)).extends extends_).exists_fronts member
    with ⟨table, inside, fronts⟩
  exact ⟨table, mem_listedTables inside, fronts.extends entering⟩

theorem exists_listedTables_of_constructor
    (covers : ∀ inner source, .procedure inner ∈ sources →
      start.composite? inner = some source → start.CoversConstructors source) :
    ∀ constructor ∈ merged.constructors sources,
      ∃ table ∈ listedTables prototype sources merged,
        (composer.enterType sources prototype merged).2.Fronts (.procedure constructor) table := by
  refine Store.forall_mem_constructors.mpr fun source member constructor contributes => ?_
  cases present source member with
  | @type inner composite houses =>
      rcases extends_.composite? houses.found with ⟨definer, kept⟩
      rw [Store.sourceConstructors_of_composite? kept] at contributes
      rcases covers inner composite member houses.found constructor contributes with
        ⟨table, inside, fronts⟩
      exact ⟨table, subset_listedTables_of_type extends_ prototype member houses.found inside,
        fronts.extends (extends_.trans (extends_enterType composer sources prototype merged))⟩
  | @plain reference plain =>
      rw [Store.sourceConstructors_of_isPlain (extends_.isPlain plain), List.mem_singleton]
        at contributes
      subst contributes
      exact exists_listedTables_of_contributor extends_ prototype composer present
        (mem_contributors_of_procedure member)
  | table known => cases contributes

end Entered

section Composed

variable {meaning : Meaning σ} (evolving : meaning.Evolving) {composer : Composer}
  {world later : World σ} (rooted : world.store.Rooted) (tables : world.store.HasTables)

inductive TableOf (start merged : Store) (prototype : ObjectId) : List Value → Prop
  | bare : TableOf start merged prototype [.object prototype]
  | new {first : Value} {rest : List Value} {table : ObjectId}
      (merges : Merges first rest) (absent : start.hasObject prototype = false)
      (unclaimed : merged.Unclaimed prototype)
      (fronts : merged.Fronts first table)
      (delegates : merged.isPrototypeOf table prototype = true) :
      TableOf start merged prototype (first :: rest)

include evolving rooted tables

private theorem tableOf_of_composeTable {first : Value} {rest : List Value} {prototype : ObjectId}
    (present : world.store.Present first)
    (ran : (composer.composeTable meaning first rest).run world = (.ok prototype, later)) :
    TableOf world.store later.store prototype (first :: rest) := by
  by_cases merges : Merges first rest
  · rw [composeTable_of_merges meaning composer merges] at ran
    rcases succeeded_of_bind ran with ⟨target, between, delegated, ran⟩
    have evolution := (Action.Follows.bind (Definer.evolving_ofValue evolving first)
      fun definer => Action.Follows.bind (evolving_mixin evolving target rest definer)
        fun conflicts => Action.Follows.bind (composer.evolving_report conflicts) fun _ =>
          Action.Follows.pure target) between
    rw [ran] at evolution
    rcases succeeded_of_bind ran with ⟨_, _, _, ran⟩
    rcases succeeded_of_bind ran with ⟨_, _, _, ran⟩
    rcases succeeded_of_bind ran with ⟨_, _, _, ran⟩
    cases ran
    have made := Sources.evolving_delegate first world
    rw [delegated] at made
    have rootedBetween := rooted.evolves made.1
    rcases Sources.exists_fronts_of_delegate delegated present with ⟨table, fronts⟩
    have parent := Sources.parent_of_delegate tables present delegated fronts
    have delegates : between.store.isPrototypeOf table prototype = true := by
      rw [Store.isPrototypeOf_iff_of_parent rootedBetween parent, Store.ancestry_eq_cons]
      exact List.mem_cons_self ..
    exact .new merges (Sources.fresh_of_delegate delegated)
      ((Sources.unclaimed_of_delegate delegated tables).evolves evolution.1)
      (fronts.extends evolution.1.extends)
      (evolution.1.extends.isPrototypeOf rootedBetween (rootedBetween.evolves evolution.1)
        delegates)
  · rw [Merges, not_or, not_not] at merges
    rcases merges with ⟨rfl, bare⟩
    cases present with
    | type | plain => exact absurd ⟨_, rfl⟩ bare
    | table known =>
        cases ran
        exact .bare

omit evolving rooted tables in
theorem TableOf.not_mem_contributed {start merged : Store} {prototype : ObjectId}
    {sources : List Value} (tableOf : TableOf start merged prototype sources)
    (extends_ : start.Extends merged) (present : ∀ source ∈ sources, start.Present source) :
    prototype ∉ FirstSeen.ofList (Store.allPrototypes (contributors sources) merged).1 := by
  rw [FirstSeen.mem_ofList]
  cases tableOf with
  | bare => exact List.not_mem_nil
  | new merges absent unclaimed fronts delegates =>
      exact unclaimed.not_mem_allPrototypes absent extends_ fun source member =>
        present source (contributors_subset _ member)

theorem flatTables_of_compose {sources : List Value} {type : ProcedureId}
    (present : ∀ source ∈ sources, world.store.Present source)
    (covers : ∀ inner source, .procedure inner ∈ sources →
      world.store.composite? inner = some source → world.store.CoversConstructors source)
    (ran : (composer.compose meaning sources).run world = (.ok type, later)) :
    ∃ built : Composite, later.store.Houses type built ∧ built.procedure = type ∧
      later.store.FlatTables built sources := by
  rcases houses_of_compose evolving tables present ran with ⟨built, houses, _⟩
  rcases compose_succeeded ran with ⟨prototype, merged, ranTable, rfl, rfl⟩
  have entered := houses.found
  rw [composite?_enterType, Option.some.injEq] at entered
  subst entered
  refine ⟨_, houses, rfl, ?_⟩
  have evolution : world.store.Evolves merged.store := by
    have reached := composer.evolving_composeTable evolving (sources.headD .undefined)
      sources.tail world
    rw [ranTable] at reached
    exact reached.1
  have tableOf : TableOf world.store merged.store prototype sources := by
    cases sources with
    | nil => cases ranTable
    | cons first rest =>
        exact tableOf_of_composeTable evolving rooted tables (present first (List.mem_cons_self ..))
          ranTable
  have tabled := (listedTables_eq prototype sources merged.store).1
  have onward := extends_enterType composer sources prototype merged.store
  have whole := evolution.extends.trans onward
  refine
    { nodup := ?_, last := ?_, covers := ?_, types := ?_, tables := ?_, single := ?_, line := ?_ }
  · change (listedTables prototype sources merged.store).Nodup
    rw [tabled]
    exact FirstSeen.nodup_insert (FirstSeen.nodup_ofList _)
  · change (listedTables prototype sources merged.store).getLast? = some prototype
    rw [tabled, FirstSeen.insert_of_not_mem
      (tableOf.not_mem_contributed evolution.extends present), List.getLast?_concat]
  · exact exists_listedTables_of_constructor evolution.extends prototype composer present covers
  · intro inner source member found table inside
    rcases (present _ member).houses_of_composite? whole found with ⟨earlier, houses, bases⟩
    rw [← bases] at inside
    exact subset_listedTables_of_type evolution.extends prototype member houses.found inside
  · intro bare member
    rcases exists_listedTables_of_contributor evolution.extends prototype composer present
      (mem_contributors_of_mem_dropLast member) with ⟨table, inside, fronts⟩
    cases fronts
    exact inside
  · rintro bare rfl
    cases tableOf with
    | bare => rfl
    | new merges => exact absurd merges (by simp [Merges])
  · rintro first rest rfl
    cases tableOf with
    | new merges absent unclaimed fronts delegates =>
        have composed := composer.evolving_compose evolving (.procedure first :: rest) world
        rw [ran] at composed
        exact ⟨_, fronts.extends onward, onward.isPrototypeOf (rooted.evolves evolution)
          (rooted.evolves composed.1) delegates⟩

end Composed

end Composer

/-! ### Composition trees -/

namespace CompositionTree

/-- Whether a tree was grown by composing and extending from the time of a first world on. -/
inductive GrownSince (origin : World σ) : CompositionTree → World σ → Prop
  | procedure {world : World σ} {reference : ProcedureId}
      (evolution : (Passage.evolution σ).leads origin world)
      (plain : world.store.isPlain reference = true) :
      GrownSince origin (.procedure reference) world
  | table {world : World σ} {reference : ObjectId}
      (evolution : (Passage.evolution σ).leads origin world)
      (known : world.store.hasObject reference = true) :
      GrownSince origin (.table reference) world
  | composed {world later : World σ} {sources : List CompositionTree} {type : ProcedureId}
      (composer : Composer) (budget : Nat)
      (grown : ∀ source ∈ sources, GrownSince origin source world)
      (ran : (composer.compose (.ofBudget budget) (sources.map value)).run world =
        (.ok type, later)) :
      GrownSince origin (.composite type sources) later
  | extended {world later : World σ} {base : ProcedureId} {composite : Composite}
      {ingredients sources : List CompositionTree} {type : ProcedureId} (budget : Nat)
      (grownBase : GrownSince origin (.composite base ingredients) world)
      (found : world.store.composite? base = some composite)
      (grown : ∀ source ∈ sources, GrownSince origin source world)
      (ran : (composite.extend (.ofBudget budget) (sources.map value)).run world =
        (.ok type, later)) :
      GrownSince origin (.composite type (.composite base ingredients :: sources)) later
  | later {world later : World σ} {tree : CompositionTree} (grown : GrownSince origin tree world)
      (evolution : (Passage.evolution σ).leads world later) : GrownSince origin tree later

def Tabled (store : Store) : CompositionTree → Prop
  | procedure reference => store.isPlain reference = true
  | table reference => store.hasObject reference = true
  | composite type sources =>
      ∃ built : Composite, store.Houses type built ∧ built.procedure = type ∧
        (∀ source ∈ sources, store.Present source.value) ∧
        store.FlatTables built (sources.map value)

private theorem Tabled.present {store : Store} {tree : CompositionTree}
    (tabled : tree.Tabled store) :
    store.Present tree.value := by
  cases tree with
  | procedure reference => exact .plain tabled
  | table reference => exact .table tabled
  | composite type sources =>
      rcases tabled with ⟨built, houses, _⟩
      exact .type houses

private theorem Tabled.extends {before after : Store} {tree : CompositionTree}
    (tabled : tree.Tabled before) (extends_ : before.Extends after) (rooted : before.Rooted)
    (rootedAfter : after.Rooted) : tree.Tabled after := by
  cases tree with
  | procedure reference => exact extends_.isPlain tabled
  | table reference => exact (extends_.object reference tabled).1
  | composite type sources =>
      rcases tabled with ⟨built, houses, same, present, flat⟩
      rcases houses.extends extends_ with ⟨definer, kept⟩
      have presentValues : ∀ source ∈ sources.map value, before.Present source :=
        List.forall_mem_map.mpr present
      exact ⟨_, kept, same, fun source member => (present source member).extends extends_,
        flat.extends presentValues extends_ rooted rootedAfter definer⟩

theorem tabled_of_composed {budget : Nat} {composer : Composer} {world later : World σ}
    {sources : List CompositionTree} {type : ProcedureId} (rooted : world.store.Rooted)
    (tables : world.store.HasTables) (tabled : ∀ source ∈ sources, source.Tabled world.store)
    (ran : (composer.compose (.ofBudget budget) (sources.map value)).run world =
      (.ok type, later)) :
    (composite type sources).Tabled later.store := by
  have present : ∀ source ∈ sources.map value, world.store.Present source :=
    List.forall_mem_map.mpr fun source member => (tabled source member).present
  have covers (inner : ProcedureId) (source : Composite)
      (member : .procedure inner ∈ sources.map value)
      (found : world.store.composite? inner = some source) :
      world.store.CoversConstructors source := by
    rcases List.mem_map.mp member with ⟨tree, inside, equal⟩
    have whole := tabled tree inside
    cases tree with
    | procedure reference =>
        cases equal
        rw [Store.composite?_of_isPlain whole] at found
        cases found
    | table reference => cases equal
    | composite type parts =>
        cases equal
        rcases whole with ⟨built, houses, _, _, flat⟩
        cases found.symm.trans houses.found
        exact flat.covers
  rcases Composer.flatTables_of_compose (Meaning.evolving_ofBudget budget) rooted tables present
    covers ran with ⟨built, houses, same, flat⟩
  have evolution := leads_compose ran
  exact ⟨built, houses, same, fun source member =>
    ((tabled source member).present).extends evolution.1.extends, flat⟩

section Grown

variable {origin world : World σ} {tree : CompositionTree} (rooted : origin.store.Rooted)
  (tables : origin.store.HasTables)

theorem GrownSince.evolution (grown : tree.GrownSince origin world) :
    (Passage.evolution σ).leads origin world := by
  induction grown with
  | procedure evolution | table evolution => exact evolution
  | @composed world later sources type composer budget grown ran induction =>
      cases sources with
      | nil => cases ran
      | cons first rest =>
          exact (Passage.evolution σ).trans (induction first (List.mem_cons_self ..))
            (leads_compose ran)
  | extended budget grownBase found grown ran inductionBase induction =>
      exact (Passage.evolution σ).trans inductionBase (leads_compose ran)
  | later grown evolution induction => exact (Passage.evolution σ).trans induction evolution

include rooted tables

private theorem GrownSince.tabled (grown : tree.GrownSince origin world) :
    tree.Tabled world.store := by
  induction grown with
  | procedure evolution plain => exact plain
  | table evolution known => exact known
  | @composed world later sources type composer budget grown ran induction =>
      have evolution : (Passage.evolution σ).leads origin world := by
        cases sources with
        | nil => cases ran
        | cons first rest => exact (grown first (List.mem_cons_self ..)).evolution
      exact tabled_of_composed (rooted.evolves evolution.1) (tables.evolves evolution.1)
        induction ran
  | @extended world later base built ingredients sources type budget grownBase found grown ran
      inductionBase induction =>
      have evolution := grownBase.evolution
      have own : built.procedure = base := by
        rcases inductionBase with ⟨known, houses, same, _⟩
        cases found.symm.trans houses.found
        exact same
      rw [Composite.extend, own] at ran
      exact tabled_of_composed (rooted.evolves evolution.1) (tables.evolves evolution.1)
        (List.forall_mem_cons.mpr ⟨inductionBase, induction⟩) ran
  | later grown evolution induction =>
      have start := rooted.evolves grown.evolution.1
      exact induction.extends evolution.1.extends start (start.evolves evolution.1)

omit rooted tables in
theorem GrownSince.source {type : ProcedureId} {sources : List CompositionTree}
    (grown : (composite type sources).GrownSince origin world) :
    ∀ source ∈ sources, source.GrownSince origin world := by
  generalize whole : composite type sources = tree at grown
  induction grown with
  | procedure | table => cases whole
  | composed composer budget grown ran =>
      cases whole
      exact fun source member => (grown source member).later (leads_compose ran)
  | extended budget grownBase found grown ran =>
      cases whole
      rw [List.forall_mem_cons]
      exact ⟨grownBase.later (leads_compose ran), fun source member =>
        (grown source member).later (leads_compose ran)⟩
  | later grown evolution induction =>
      exact fun source member => (induction whole source member).later evolution

/-- The procedures on the line of first sources of a tree: itself, the first of its sources, and
so on. -/
inductive OnFirstLine (reference : ProcedureId) : CompositionTree → Prop
  | procedure : OnFirstLine reference (procedure reference)
  | type (sources : List CompositionTree) : OnFirstLine reference (composite reference sources)
  | source {first : CompositionTree} (type : ProcedureId) (rest : List CompositionTree)
      (farther : OnFirstLine reference first) :
      OnFirstLine reference (composite type (first :: rest))

private theorem delegates_to_first {type reference : ProcedureId} {first : CompositionTree}
    {rest : List CompositionTree} {built : Composite}
    (grown : (composite type (first :: rest)).GrownSince origin world)
    (found : world.store.composite? type = some built)
    (stands : first.value = .procedure reference) :
    world.store.isPrototypeOf (world.store.prototypeOf reference).1 built.prototype = true := by
  rcases grown.tabled rooted tables with ⟨same, houses, _, _, flat⟩
  cases found.symm.trans houses.found
  rcases flat.line reference (rest.map value) (by rw [List.map_cons, stands]) with
    ⟨table, fronts, delegates⟩
  rwa [fronts.prototypeOf_eq]

private theorem delegates_to_firstLine {reference : ProcedureId} {first : CompositionTree}
    (onLine : OnFirstLine reference first) :
    ∀ {type : ProcedureId} {rest : List CompositionTree} {built : Composite},
      (composite type (first :: rest)).GrownSince origin world →
      world.store.composite? type = some built →
      world.store.isPrototypeOf (world.store.prototypeOf reference).1 built.prototype = true := by
  induction onLine with
  | procedure | type => exact fun grown found => delegates_to_first rooted tables grown found rfl
  | @source first inner others farther induction =>
      intro type rest built grown found
      have grownFirst := grown.source _ (List.mem_cons_self ..)
      rcases grownFirst.tabled rooted tables with ⟨ingredient, houses, _⟩
      have nearer := delegates_to_first rooted tables grown found rfl
      rw [Store.prototypeOf_of_composite? houses.found] at nearer
      exact Store.isPrototypeOf_trans (rooted.evolves grown.evolution.1)
        (induction grownFirst houses.found) nearer

/-- A type lists tables without repetition, its own last: those of its constructors, all those of
the types among its sources, and the bare tables among them but for one in last place. A single
bare table is its own; otherwise it delegates to the first source and to all on the line of first
sources, and so does every instance. -/
theorem flattened_tables {type : ProcedureId} {sources : List CompositionTree}
    (grown : (composite type sources).GrownSince origin world) :
    ∃ built, world.store.composite? type = some built ∧
      built.bases.prototypes.Nodup ∧
      built.bases.prototypes.getLast? = some built.prototype ∧
      (∀ constructor ∈ built.bases.constructors,
        (world.store.prototypeOf constructor).1 ∈ built.bases.prototypes) ∧
      (∀ inner parts source, composite inner parts ∈ sources →
        world.store.composite? inner = some source →
          source.bases.prototypes ⊆ built.bases.prototypes) ∧
      (∀ bare, table bare ∈ sources.dropLast → bare ∈ built.bases.prototypes) ∧
      (∀ bare, sources = [table bare] → built.prototype = bare) ∧
      ∀ first rest, sources = first :: rest → ∀ reference, OnFirstLine reference first →
        world.store.isPrototypeOf (world.store.prototypeOf reference).1 built.prototype = true ∧
        ∀ object, world.store.isPrototypeOf built.prototype object = true →
          world.store.isPrototypeOf (world.store.prototypeOf reference).1 object = true := by
  rcases grown.tabled rooted tables with ⟨built, houses, _, _, flat⟩
  refine ⟨built, houses.found, flat.nodup, flat.last, fun constructor member => ?_,
    fun inner parts source member found => ?_, fun bare member => ?_, fun bare single => ?_,
    fun first rest equal reference onLine => ?_⟩
  · rcases flat.covers constructor member with ⟨table, inside, fronts⟩
    rwa [fronts.prototypeOf_eq]
  · exact flat.types inner source (List.mem_map_of_mem member) found
  · apply flat.tables
    rw [← List.map_dropLast]
    exact List.mem_map_of_mem member
  · exact flat.single bare (congrArg (List.map value) single)
  · subst equal
    have delegates := delegates_to_firstLine rooted tables onLine grown houses.found
    exact ⟨delegates, fun object =>
      Store.isPrototypeOf_trans (rooted.evolves grown.evolution.1) delegates⟩

end Grown

/-! Two bare tables and two plain procedures: a type of the first procedure and the first table is
extended with the second table, the second procedure and the first table again. -/

def tableRoots : World Unit where
  store := { Store.initial with
    objects := #[{ members := .ofEntries [("a", .ofValue .null)] },
      { members := .ofEntries [("b", .ofValue .null)] }]
    procedures := Store.initial.procedures ++ #[{ body := .code ⟨0⟩ }, { body := .code ⟨1⟩ }] }
  state := ()

def tableBase : World Unit :=
  ((composing [procedure ⟨1⟩, table ⟨0⟩]).run tableRoots).2

def tableTree : CompositionTree :=
  composite ⟨4⟩
    [composite ⟨3⟩ [procedure ⟨1⟩, table ⟨0⟩], table ⟨1⟩, procedure ⟨2⟩, table ⟨0⟩]

def tableNested : World Unit :=
  ((extending tableBase ⟨3⟩ [table ⟨1⟩, procedure ⟨2⟩, table ⟨0⟩]).run tableBase).2

theorem flattened_tables_of_nested :
    ∃ built, tableNested.store.composite? ⟨4⟩ = some built ∧
      built.bases.prototypes.map ObjectId.index = [2, 3, 1, 5, 4] ∧
      built.bases.prototypes.getLast? = some built.prototype ∧
      tableNested.store.isPrototypeOf (tableNested.store.prototypeOf ⟨1⟩).1 built.prototype =
        true := by
  have refl := (Passage.evolution Unit).refl tableRoots
  have ranBase := Action.run_eq_of_toOption (composing [procedure ⟨1⟩, table ⟨0⟩]) tableRoots ⟨3⟩
    (by decide +kernel)
  have evolution : (Passage.evolution Unit).leads tableRoots tableBase := leads_compose ranBase
  have base : (composite ⟨3⟩ [procedure ⟨1⟩, table ⟨0⟩]).GrownSince tableRoots tableBase := by
    refine .composed {} 0 (fun source member => ?_) ranBase
    rcases List.mem_pair.mp member with rfl | rfl
    · exact .procedure refl (by decide +kernel)
    · exact .table refl (by decide +kernel)
  have foundBase := (Option.some_get! (tableBase.store.composite? ⟨3⟩) (by decide +kernel)).symm
  have ranNested := Action.run_eq_of_toOption
    (extending tableBase ⟨3⟩ [table ⟨1⟩, procedure ⟨2⟩, table ⟨0⟩]) tableBase ⟨4⟩
    (by decide +kernel)
  have nested : tableTree.GrownSince tableRoots tableNested := by
    refine .extended 0 base foundBase (fun source member => ?_) ranNested
    simp only [List.mem_cons, List.not_mem_nil, or_false] at member
    rcases member with rfl | rfl | rfl
    · exact .table evolution (by decide +kernel)
    · exact .procedure evolution (by decide +kernel)
    · exact .table evolution (by decide +kernel)
  rcases flattened_tables (by decide +kernel) (by decide +kernel) nested with
    ⟨built, found, _, last, _, _, _, _, line⟩
  have listed : (tableNested.store.composite? ⟨4⟩).map
      (·.bases.prototypes.map ObjectId.index) = some [2, 3, 1, 5, 4] := by
    decide +kernel
  rw [found] at listed
  exact ⟨built, found, Option.some.inj listed, last,
    (line _ _ rfl ⟨1⟩ (.source ⟨3⟩ _ .procedure)).1⟩

end CompositionTree

end TraitComposition
