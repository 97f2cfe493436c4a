import TraitComposition.Proofs.Composition.Presence
import TraitComposition.Proofs.Merge.Turns

/-!
Decorators in a composition. The first source of a composition is delegated to, and the others
are merged one by one, however often they occur. Nobody remembers that a hook has run, so the
hook of a decorator in a bare table runs again for each occurrence of the table.
-/
namespace TraitComposition

open Merge

variable {σ : Type}

theorem Sources.fresh_of_delegate {base : Value} {world later : World σ} {target : ObjectId}
    (ran : (Sources.delegate base).run world = (.ok target, later)) :
    world.store.hasObject target = false := by
  cases base with
  | object object =>
      cases ran
      exact Store.hasObject_nextObject_eq_false world.store
  | procedure procedure =>
      cases ran
      have asked := Store.Extends.of_prototypeOf world.store procedure
      have new := Store.hasObject_nextObject_eq_false (world.store.prototypeOf procedure).2
      exact Bool.eq_false_iff.mpr fun known =>
        Bool.eq_false_iff.mp new (asked.object _ known).1
  | undefined | null | boolean | number | text | list => cases ran

namespace Composer

variable (meaning : Meaning σ) (composer : Composer)

def Merges (first : Value) (rest : List Value) : Prop :=
  rest ≠ [] ∨ ∃ procedure, first = .procedure procedure

theorem composeTable_of_merges {first : Value} {rest : List Value} (merges : Merges first rest) :
    composer.composeTable meaning first rest = (do
      let target ← Sources.delegate first
      let definer ← Definer.ofValue meaning first
      composer.report (← mixin meaning target rest definer)
      return target) := by
  unfold composeTable
  split
  · rcases merges with some_ | ⟨procedure, equal⟩
    · exact absurd rfl some_
    · cases equal
  · rfl

section Composing

variable {meaning} {world between begun : World σ} {first : Value} {rest : List Value}
  {target : ObjectId} {definer : Definer} (merges : Merges first rest)
  (valid : Sources.validate (first :: rest) 0 = .ok ())
  (delegated : (Sources.delegate first).run world = (.ok target, between))
  (defined : (Definer.ofValue meaning first).run between = (.ok definer, begun))

include merges valid delegated defined

/-- Once the new table is there, a composition is the merge of the sources after the first,
the report of what it left, and the entry of the type. -/
theorem run_compose_of_begun :
    (composer.compose meaning (first :: rest)).run world =
      (mixin meaning target rest definer >>= fun conflicts => composer.report conflicts >>= fun _ =>
        Action.edit (composer.enterType (first :: rest) target)).run begun := by
  rw [run_compose meaning composer valid, List.headD_cons, List.tail_cons,
    composeTable_of_merges meaning composer merges, Action.run_bind_of_ok _ delegated,
    Action.run_bind_of_ok _ defined, Action.run_bind, Action.run_bind]
  rcases (mixin meaning target rest definer).run begun with ⟨fault | conflicts, merged⟩
  · rfl
  · dsimp only
    rw [Action.run_bind, Action.run_bind]
    rcases (composer.report conflicts).run merged with ⟨fault | _, reported⟩ <;> rfl

omit merges valid in
theorem begun_of_delegated (evolving : meaning.Evolving) (rooted : world.store.Rooted) :
    world.store.Extends begun.store ∧ begun.store.Rooted ∧
      ∀ table, world.store.hasObject table = true →
        begun.store.hasObject table = true ∧ target ∉ begun.store.ancestry table := by
  have made := Sources.evolving_delegate first world
  have read := Definer.evolving_ofValue evolving first between
  rw [delegated] at made
  rw [defined] at read
  have evolution := made.1.trans read.1
  have rootedBegun := rooted.evolves evolution
  refine ⟨evolution.extends, rootedBegun, fun table known => ?_⟩
  refine ⟨(evolution.extends.object table known).1, fun member => ?_⟩
  rw [evolution.extends.ancestry_eq rooted rootedBegun known] at member
  have there := Store.hasObject_of_mem_ancestry rooted known member
  rw [Sources.fresh_of_delegate delegated] at there
  cases there

/-- How often hooks run in a composition. Every hook that the merge runs is run at a turn, where
a source shows its decorator; another meaning of hooks makes a difference there or nowhere. If
what runs at the turns only touches the new table, the hook of a decorator runs under a name at
most as often as sources after the first show the decorator there, and, if the merge succeeds, at
least as often as bare tables among them do. -/
theorem decorator_runs_by_occurrence (evolving : meaning.Evolving) (rooted : world.store.Rooted)
    (tables : world.store.HasTables)
    (fronts : ∀ source ∈ rest, ∃ table, world.store.Fronts source table)
    (contained : ∀ turn ∈ turns meaning ⟨target, definer, rest⟩ 0 rest [] begun,
      turn.Contained meaning ⟨target, definer, rest⟩)
    (name : String) {decorator : ProcedureId}
    (decorates : begun.store.isDecorator decorator = true) :
    (composer.compose meaning (first :: rest)).run world =
      (mixin meaning target rest definer >>= fun conflicts => composer.report conflicts >>= fun _ =>
        Action.edit (composer.enterType (first :: rest) target)).run begun ∧
    (∀ turn ∈ turns meaning ⟨target, definer, rest⟩ 0 rest [] begun,
      turn.Installs meaning ⟨target, definer, rest⟩ (turn.decorator? target)) ∧
    (∀ install, (∀ turn ∈ turns meaning ⟨target, definer, rest⟩ 0 rest [] begun,
        turn.run { meaning with install := install } ⟨target, definer, rest⟩ =
          turn.run meaning ⟨target, definer, rest⟩) →
      (mixin { meaning with install := install } target rest definer).run begun =
        (mixin meaning target rest definer).run begun) ∧
    installations target name decorator (turns meaning ⟨target, definer, rest⟩ 0 rest [] begun) ≤
      rest.countP (begun.store.shows name decorator) ∧
    ∀ conflicts merged, (mixin meaning target rest definer).run begun = (.ok conflicts, merged) →
      rest.countP (begun.store.showsBare name decorator) ≤
        installations target name decorator
          (turns meaning ⟨target, definer, rest⟩ 0 rest [] begun) := by
  rcases begun_of_delegated delegated defined evolving rooted with ⟨extends_, rootedBegun, apart⟩
  have there : ∀ source ∈ rest, ∃ table, begun.store.Fronts source table ∧
      begun.store.hasObject table = true ∧ target ∉ begun.store.ancestry table := by
    intro source member
    rcases fronts source member with ⟨table, shown⟩
    exact ⟨table, shown.extends extends_, apart table (shown.hasObject tables)⟩
  rcases installations_turns rootedBegun name decorator (.refl _ _) contained there with
    ⟨most, least⟩
  exact ⟨run_compose_of_begun composer merges valid delegated defined,
    fun turn _ => turn.installs_decorator? meaning ⟨target, definer, rest⟩,
    fun install same => run_turns_congr same, most, least decorates⟩

end Composing

def decorated : World Unit where
  store := {
    objects := #[
      {}, { members := MemberTable.empty.insert "n" (.ofValue (.procedure ⟨1⟩)) }]
    procedures := #[
      { body := .required }, { body := .unapplied none, hook := some (.code ⟨0⟩) }] }
  state := ()

theorem decorator_runs_twice :
    ∃ begun : World Unit,
      (({} : Composer).compose (.ofBudget 2) [.object ⟨0⟩, .object ⟨1⟩, .object ⟨1⟩]).run
          decorated =
        (mixin (.ofBudget 2) ⟨2⟩ [.object ⟨1⟩, .object ⟨1⟩] .raw >>= fun conflicts =>
          ({} : Composer).report conflicts >>= fun _ =>
            Action.edit (({} : Composer).enterType [.object ⟨0⟩, .object ⟨1⟩, .object ⟨1⟩]
              ⟨2⟩)).run begun ∧
      (mixin (.ofBudget 2) ⟨2⟩ [.object ⟨1⟩, .object ⟨1⟩] .raw).run begun = (.ok [], begun) ∧
      installations ⟨2⟩ "n" ⟨1⟩ (turns (.ofBudget 2) ⟨⟨2⟩, .raw, [.object ⟨1⟩, .object ⟨1⟩]⟩ 0
        [.object ⟨1⟩, .object ⟨1⟩] [] begun) = 2 := by
  let begun : World Unit := { decorated with store := decorated.store.delegating ⟨0⟩ }
  let plan : Plan := ⟨⟨2⟩, .raw, [.object ⟨1⟩, .object ⟨1⟩]⟩
  have owned : begun.store.ownDescriptor? ⟨1⟩ "n" = some (.ofValue (.procedure ⟨1⟩)) :=
    MemberTable.find?_insert_same ..
  have names : begun.store.enumerableNames ⟨1⟩ = ["n"] := by decide +kernel
  have ran (index : Nat) : Turn.run (.ofBudget 2) plan ⟨⟨index, ⟨1⟩, none⟩, "n", [], begun⟩ =
      (.ok [], begun) := by
    rw [Turn.run, Visit.mix, mixMember, Action.run_getStore_bind, Store.lookup_of_own owned]
    rfl
  have merged (index : Nat) : (mixSource (.ofBudget 2) plan index (.object ⟨1⟩) []).run begun =
      (.ok [], begun) := by
    rw [run_mixSource_eq_visit]
    dsimp only [Visit.start?]
    rw [names, List.foldlM_cons, Action.run_bind_of_ok _ (ran index)]
    rfl
  have mixed : (mixin (.ofBudget 2) ⟨2⟩ [.object ⟨1⟩, .object ⟨1⟩] .raw).run begun =
      (.ok [], begun) := by
    rw [mixin, mixSources, Action.run_bind_of_ok _ (merged 0), mixSources,
      Action.run_bind_of_ok _ (merged 1)]
    rfl
  have taken : turns (.ofBudget 2) plan 0 [.object ⟨1⟩, .object ⟨1⟩] [] begun =
      [⟨⟨0, ⟨1⟩, none⟩, "n", [], begun⟩, ⟨⟨1, ⟨1⟩, none⟩, "n", [], begun⟩] := by
    simp only [turns, turnsOfSource, Visit.start?, names, turnsOfNames, ran, merged]
    rfl
  have fronts : ∀ source ∈ [Value.object ⟨1⟩, .object ⟨1⟩], ∃ table,
      decorated.store.Fronts source table := by
    simp only [List.forall_mem_cons]
    exact ⟨⟨_, .table (by decide)⟩, ⟨_, .table (by decide)⟩, List.forall_mem_nil _⟩
  have shown : begun.store.shown? ⟨1⟩ "n" = some (.procedure ⟨1⟩) :=
    Store.shown?_of_descriptor? (Store.descriptor?_of_own owned)
  have defined : (Definer.ofValue (.ofBudget 2) (.object ⟨0⟩)).run begun = (.ok .raw, begun) := by
    have unowned : begun.store.lookup ⟨0⟩ Definer.memberName = none := by decide +kernel
    rw [Definer.ofValue, Member.read, Action.run_bind, Action.run_getStore_bind, Store.descriptor?,
      unowned]
    rfl
  have contained : ∀ turn ∈ turns (.ofBudget 2) plan 0 [.object ⟨1⟩, .object ⟨1⟩] [] begun,
      turn.Contained (.ofBudget 2) plan := by
    rw [taken]
    simp only [List.forall_mem_cons, Turn.Contained, ran]
    exact ⟨.refl _ _, .refl _ _, List.forall_mem_nil _⟩
  have delegated : (Sources.delegate (.object ⟨0⟩)).run decorated = (.ok ⟨2⟩, begun) := rfl
  have decorates : begun.store.isDecorator ⟨1⟩ = true := rfl
  rcases decorator_runs_by_occurrence {} (.inl (by simp)) rfl delegated defined
    (Meaning.evolving_ofBudget 2) (by decide) (by decide) fronts contained "n" decorates
    with ⟨composed, _, _, most, least⟩
  have twice : [Value.object ⟨1⟩, .object ⟨1⟩].countP (begun.store.shows "n" ⟨1⟩) = 2 ∧
      [Value.object ⟨1⟩, .object ⟨1⟩].countP (begun.store.showsBare "n" ⟨1⟩) = 2 := by
    simp [Store.showsBare, Store.shows, shown, Value.asObject]
  exact ⟨begun, composed, mixed,
    Nat.le_antisymm (twice.1 ▸ most) (twice.2 ▸ least [] begun mixed)⟩

end Composer

end TraitComposition
