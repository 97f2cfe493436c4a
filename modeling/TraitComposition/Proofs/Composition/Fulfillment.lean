import TraitComposition.Proofs.Composition.Reporting
import TraitComposition.Proofs.Machine.Exhaustion
import TraitComposition.Proofs.Merge.Fulfillment

/-!
Requirements in a composition that runs no user code. If the composition succeeds, a name
that is used for methods only is implemented in the end as soon as one source implements
it, wherever it stands among those that require it.
-/
namespace TraitComposition

variable {σ α : Type}

def Inert (operation : Meaning σ → Action σ α) (meaning : Meaning σ) (world : World σ) : Prop :=
  (operation .exhausted).run world = (operation meaning).run world

private theorem inert_of_upheld {operation : Meaning σ → Action σ α} {meaning : Meaning σ}
    {world later : World σ} {answer : α}
    (upheld : Action.UpheldBy (operation .exhausted) (operation meaning))
    (ran : (operation .exhausted).run world = (.ok answer, later)) :
    Inert operation meaning world :=
  ran.trans (upheld world answer later ran).symm

def Store.DefinesRaw (store : Store) : Value → Prop
  | .object object =>
      ∀ definer, store.dataValue? object Definer.memberName ≠ some (.procedure definer)
  | .procedure procedure => store.definer? procedure = none
  | _ => True

/-! ### The destination -/

section Destination

open Store (Underway)
open TraitComposition.Action (succeeded_of_bind)

variable {world between : World σ} {base : Value} {target : ObjectId}

private theorem Sources.run_delegate_of_fronts {table : ObjectId}
    (fronts : world.store.Fronts base table) :
    (Sources.delegate base).run world =
      (.ok world.store.nextObject, { world with store := world.store.delegating table }) := by
  cases base with
  | procedure procedure =>
      rw [Sources.delegate, Action.run_edit_bind, fronts.prototypeOf_eq]
      rfl
  | object object =>
      cases fronts
      rfl
  | _ => cases fronts

theorem Sources.underway_of_delegate (present : world.store.Present base)
    (ran : (Sources.delegate base).run world = (.ok target, between)) :
    world.store.hasObject target = false ∧ Underway world.store target between.store := by
  by_cases fronted : ∃ table, world.store.Fronts base table
  · rcases fronted with ⟨table, fronts⟩
    rw [run_delegate_of_fronts fronts] at ran
    cases ran
    exact ⟨world.store.hasObject_nextObject_eq_false,
      .of_createObject world.store (some table), Store.hasObject_createObject_self _ _⟩
  · cases present with
    | type houses => exact absurd ⟨_, .type houses⟩ fronted
    | table known => exact absurd ⟨_, .table known⟩ fronted
    | @plain procedure plain =>
        cases ran
        have tableless : (world.store.procedure procedure).table = none :=
          Option.eq_none_iff_forall_ne_some.mpr fun table made =>
            fronted ⟨table, .plain plain made⟩
        have size : (world.store.prototypeOf procedure).2.objects.size =
            world.store.objects.size + 1 := by
          rw [Store.prototypeOf_of_tableless plain tableless]
          exact Store.objects_size_createObject world.store none
        have apart : world.store.nextObject ≠ (world.store.prototypeOf procedure).2.nextObject := by
          simp [Store.nextObject, size]
        have absent :
            world.store.hasObject (world.store.prototypeOf procedure).2.nextObject = false := by
          simp only [Store.hasObject, Store.nextObject, size]
          simp
        refine ⟨absent, ?_, Store.hasObject_createObject_self _ _⟩
        exact (Store.MergesInto.of_prototypeOf world.store procedure apart).trans
          (.of_createObject _ _)

theorem Sources.fulfills_of_delegate {table : ObjectId} {name : String}
    (rooted : world.store.Rooted) (known : world.store.hasObject table = true)
    (fronts : world.store.Fronts base table) (fulfills : world.store.Fulfills table name)
    (ran : (Sources.delegate base).run world = (.ok target, between)) :
    between.store.Fulfills target name := by
  rw [run_delegate_of_fronts fronts] at ran
  cases ran
  rcases fulfills with ⟨method, resolved, implemented⟩
  have adds := Store.AddsTable.of_delegating known
  have there := Store.hasProcedure_of_implemented implemented
  have unowned := world.store.ownDescriptor?_delegating_nextObject table name
  exact ⟨method, (adds.dataValue?_nextObject rooted known unowned).trans resolved,
    (adds.changes.extends_.isRequired there).trans implemented⟩

theorem Member.value_of_read {object : ObjectId} {name : String} {value : Value}
    {later : World σ} (ran : (read .exhausted object name).run world = (.ok value, later)) :
    later = world ∧ (world.store.dataValue? object name = some value ∨ value = .undefined) := by
  rw [read, Action.run_getStore_bind] at ran
  rw [Store.dataValue?]
  cases described : world.store.descriptor? object name with
  | none =>
      rw [described] at ran
      cases ran
      exact ⟨rfl, .inr rfl⟩
  | some descriptor =>
      rw [described, Option.map_some] at ran
      rw [Option.bind_some, Descriptor.value?]
      cases shape : descriptor.shape with
      | data held writable =>
          rw [shape] at ran
          cases ran
          exact ⟨rfl, .inl rfl⟩
      | accessor getter setter =>
          rw [shape] at ran
          cases getter with
          | none =>
              cases ran
              exact ⟨rfl, .inr rfl⟩
          | some getter => cases ran

private theorem Definer.eq_raw_of_definesRaw {definer : Definer} {later : World σ}
    (rooted : world.store.Rooted) (present : world.store.Present base)
    (raw : world.store.DefinesRaw base)
    (delegated : (Sources.delegate base).run world = (.ok target, between))
    (ran : (Definer.ofValue .exhausted base).run between = (.ok definer, later)) :
    definer = .raw ∧ later = between := by
  rcases Sources.underway_of_delegate present delegated with ⟨absent, underway⟩
  cases present with
  | @type procedure composite houses =>
      rw [Sources.run_delegate_of_fronts (.type houses)] at delegated
      cases delegated
      have adds := Store.AddsTable.of_delegating houses.hasObject_prototype
      have kept := adds.changes.types _ _ houses.found
      rw [Store.DefinesRaw, Store.definer?, houses.found] at raw
      have definedRaw := run_ofValue_of_type .exhausted
        { world with store := world.store.delegating composite.prototype } kept raw
      rw [definedRaw] at ran
      cases ran
      exact ⟨rfl, rfl⟩
  | @plain procedure plain =>
      have nothing : between.store.definer? procedure = none := by
        rw [Store.definer?, Store.composite?_of_isPlain
          (underway.merges.changes.extends_.isPlain plain)]
        rfl
      rw [ofValue, Action.run_getStore_bind, nothing] at ran
      cases ran
      exact ⟨rfl, rfl⟩
  | @table object known =>
      have same := underway.descriptor?_eq rooted absent known memberName
      rcases succeeded_of_bind ran with ⟨value, after, read, ran⟩
      rcases Member.value_of_read read with ⟨rfl, held⟩
      rw [Store.dataValue?, same, ← Store.dataValue?] at held
      cases value with
      | procedure procedure =>
          rcases held with held | held
          · exact absurd held (raw procedure)
          · cases held
      | _ =>
          cases ran
          exact ⟨rfl, rfl⟩

end Destination

/-! ### The composition -/

namespace Composer

open Merge
open Store (ChangesWithin Underway)
open TraitComposition.Action (succeeded_of_bind)

variable {world later : World σ} {composer : Composer} {base : Value} {sources : List Value}
  {name : String} {prototype : ObjectId}

theorem changesWithin_report (composer : Composer) (conflicts : List Conflict) (world : World σ) :
    ChangesWithin .nowhere world.store ((composer.report conflicts).run world).2.store := by
  rw [run_report]
  exact .nowhere_of_changesOnly (world.store.changesOnly_reportAll composer.observer conflicts)

theorem changesWithin_enterType (composer : Composer) (sources : List Value)
    (prototype : ObjectId) (world : World σ) :
    ChangesWithin .nowhere world.store (composer.enterType sources prototype world.store).2 := by
  have asks : Asks (Passage.within σ .nowhere) := asks_within .nowhere
  have asked := asks.prototypes (chainSources prototype sources) world
  apply asked.trans
  exact .nowhere_of_changesOnly (Store.ChangesOnly.of_addComposite _ _ _ composer)

section Composed

variable (rooted : world.store.Rooted) (tables : world.store.HasTables)
  (presentBase : world.store.Present base)
  (present : ∀ source ∈ sources, world.store.Present source) (raw : world.store.DefinesRaw base)
  (brings : ∀ source ∈ sources, ∀ table, world.store.Fronts source table →
    world.store.BringsMethod table name)
  (provided : (∃ table, world.store.Fronts base table ∧ world.store.Fulfills table name) ∨
    ∃ source ∈ sources, world.store.Provides source name)

include rooted tables presentBase present raw brings provided

private theorem fulfills_of_composeTable
    (ran : (composer.composeTable .exhausted base sources).run world = (.ok prototype, later)) :
    later.store.Rooted ∧ later.store.hasObject prototype = true ∧
      later.store.Fulfills prototype name := by
  unfold composeTable at ran
  split at ran
  · next table =>
    cases ran
    rcases provided with ⟨other, fronts, fulfills⟩ | ⟨source, member, _⟩
    · cases fronts
      exact ⟨rooted, Store.Fronts.hasObject (.table ‹_›) tables, fulfills⟩
    · cases member
  · rcases succeeded_of_bind ran with ⟨target, between, delegated, ran⟩
    rcases succeeded_of_bind ran with ⟨definer, same, defined, ran⟩
    rcases succeeded_of_bind ran with ⟨conflicts, merged, mixed, ran⟩
    rcases succeeded_of_bind ran with ⟨_, reported, told, ran⟩
    cases ran
    rcases Definer.eq_raw_of_definesRaw rooted presentBase raw delegated defined with ⟨rfl, rfl⟩
    rcases Sources.underway_of_delegate presentBase delegated with ⟨absent, underway⟩
    -- What the base implements is there before the merge, the rest comes with it.
    have settled : same.store.Fulfills prototype name ∨
        ∃ source ∈ sources, world.store.Provides source name :=
      provided.imp_left fun ⟨_, fronts, fulfills⟩ =>
        Sources.fulfills_of_delegate rooted (fronts.hasObject tables) fronts fulfills delegated
    have fulfills := fulfills_of_mixSources rooted absent tables rfl present brings underway mixed
      settled
    have merges := follows_mixin_merging prototype sources same underway.known
    rw [mixed] at merges
    have underwayThen := underway.later merges
    have changes := changesWithin_report composer conflicts merged
    rw [told] at changes
    have rootedThen := underwayThen.rootedNow rooted
    exact ⟨changes.rooted rootedThen, (changes.extends_.object _ underwayThen.known).1,
      fulfills.later changes rootedThen underwayThen.known fun _ _ => id⟩

/-- A requirement is fulfilled whatever the order: if the base has implemented a name or a
later source provides it, then in the table of the composed type it is implemented, however
many of the sources require it. -/
theorem requirement_fulfilled {meaning : Meaning σ} {type : ProcedureId}
    (inert : Inert (fun meaning => composer.compose meaning (base :: sources)) meaning world)
    (ran : (composer.compose meaning (base :: sources)).run world = (.ok type, later)) :
    ∃ composite, later.store.composite? type = some composite ∧
      later.store.Fulfills composite.prototype name := by
  have ranInert := inert.trans ran
  rcases compose_succeeded ranInert with ⟨prototype, merged, ranTable, rfl, rfl⟩
  rcases fulfills_of_composeTable rooted tables presentBase present raw brings provided ranTable
    with ⟨rootedThen, known, fulfills⟩
  have changes := changesWithin_enterType composer (base :: sources) prototype merged
  exact ⟨_, composer.composite?_enterType _ prototype merged.store,
    fulfills.later changes rootedThen known fun _ _ => id⟩

end Composed

def requiringType : Composite where
  procedure := ⟨2⟩
  prototype := ⟨0⟩
  bases := ⟨[], [⟨0⟩]⟩
  composer := {}

def providingType : Composite where
  procedure := ⟨3⟩
  prototype := ⟨2⟩
  bases := ⟨[], [⟨2⟩]⟩
  composer := {}

def requiring : World Unit where
  store := {
    objects := #[
      { members := MemberTable.empty.insert "n" (.ofValue (.procedure Store.requiredMarker)) },
      { members := MemberTable.empty.insert "n" (.ofValue (.procedure Store.requiredMarker)) },
      { members := MemberTable.empty.insert "n" (.ofValue (.procedure ⟨1⟩)) }]
    procedures := #[
      { body := .required }, { body := .code ⟨0⟩ }, { body := .composite ⟨0⟩ },
      { body := .composite ⟨1⟩ }]
    composites := #[requiringType, providingType] }
  state := ()

theorem requirement_fulfilled_last :
    ∃ later, (({} : Composer).compose (.ofBudget 1)
        [.procedure ⟨2⟩, .object ⟨1⟩, .procedure ⟨3⟩]).run requiring = (.ok ⟨4⟩, later) ∧
      ∃ composite, later.store.composite? ⟨4⟩ = some composite ∧
        later.store.Fulfills composite.prototype "n" := by
  have housesFirst : requiring.store.Houses ⟨2⟩ requiringType := ⟨rfl, by decide, by decide⟩
  have housesLast : requiring.store.Houses ⟨3⟩ providingType := ⟨rfl, by decide, by decide⟩
  have table : requiring.store.Fronts (.object ⟨1⟩) ⟨1⟩ := .table rfl
  have last : requiring.store.Fronts (.procedure ⟨3⟩) ⟨2⟩ := .type housesLast
  have required : requiring.store.dataValue? ⟨1⟩ "n" = some (.procedure Store.requiredMarker) :=
    Store.chainHolds_singleton.mp (by decide +kernel)
  have implemented : requiring.store.dataValue? ⟨2⟩ "n" = some (.procedure ⟨1⟩) :=
    Store.chainHolds_singleton.mp (by decide +kernel)
  have unasked := Action.run_eq_of_toOption (({} : Composer).compose .exhausted
    [.procedure ⟨2⟩, .object ⟨1⟩, .procedure ⟨3⟩]) requiring ⟨4⟩ (by decide +kernel)
  have upheld := upheld_compose (.ofBudget 1 : Meaning Unit) {}
    [.procedure ⟨2⟩, .object ⟨1⟩, .procedure ⟨3⟩]
  have ran := upheld _ _ _ unasked
  refine ⟨_, ran, requirement_fulfilled (by decide) (by decide)
    (.type housesFirst) ?_ rfl ?_ (.inr ?_) (inert_of_upheld upheld unasked) ran⟩
  · intro source member
    rcases List.mem_cons.mp member with rfl | member
    · exact .table rfl
    · cases List.mem_singleton.mp member
      exact .type housesLast
  · intro source member other fronts _
    rcases List.mem_cons.mp member with rfl | member
    · rw [fronts.unique table]
      exact ⟨_, required, rfl, rfl⟩
    · cases List.mem_singleton.mp member
      rw [fronts.unique last]
      exact ⟨_, implemented, rfl, rfl⟩
  · exact ⟨.procedure ⟨3⟩, by simp, ⟨2⟩, last, by decide +kernel, _, implemented, rfl⟩

end Composer

end TraitComposition
