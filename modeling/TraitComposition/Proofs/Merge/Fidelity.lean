import TraitComposition.Proofs.Merge.Relaying
import TraitComposition.Proofs.Merge.Undecorated

/-!
Members are copied as they are. A name that the destination does not resolve, and that one source
alone enumerates, comes to be owned by the destination with the very descriptor that the table of
the source resolves it to. Until the source has its turn the destination owns nothing under the
name; from then on it owns the descriptor, and whatever is merged later puts it again or leaves it
alone, also if a source is the destination or delegates to it.
-/
namespace TraitComposition

variable {σ : Type}

namespace Store

/-- Whether a store comes about in the middle of a merge in which nothing but one descriptor is
ever stored under a name of the destination. -/
structure Copying (start : Store) (target : ObjectId) (name : String) (descriptor : Descriptor)
    (now : Store) : Prop extends Amid start target now where
  only : ∀ existing, now.ownDescriptor? target name = some existing → existing = descriptor

namespace Copying

variable {start now : Store} {target table : ObjectId} {name : String} {descriptor : Descriptor}
  (rooted : start.Rooted) (missing : start.has target name = false)

include rooted missing

theorem descriptor?_target (copying : Copying start target name descriptor now)
    (known : start.hasObject target = true) :
    now.descriptor? target name = now.ownDescriptor? target name := by
  cases own : now.ownDescriptor? target name with
  | some existing => exact descriptor?_of_own own
  | none =>
      have unchanged : now.lookup target name = start.lookup target name := by
        refine lookup_congr (copying.changes.ancestry_eq rooted known) fun level member => ?_
        by_cases same : level = target
        · rw [same, own, ownDescriptor?_of_has missing]
        · rw [ownDescriptor?, ownDescriptor?, copying.changes.members level
            (hasObject_of_mem_ancestry rooted known member) same]
      rw [has, Option.isSome_eq_false_iff, Option.isNone_iff_eq_none] at missing
      rw [descriptor?, unchanged, missing]
      rfl

variable (descriptor) in
theorem fixed_or_own (known : start.hasObject target = true)
    (there : start.hasObject table = true) :
    (∀ now, Copying start target name descriptor now →
        now.descriptor? table name = start.descriptor? table name) ∨
      start.descriptor? table name = none ∧ ∀ now, Copying start target name descriptor now →
        now.descriptor? table name = now.ownDescriptor? target name := by
  rcases lookup_fixed_or_through rooted there target name with fixed | through
  · refine .inl fun now copying => ?_
    rw [descriptor?, descriptor?, fixed now (.of_changesOnly copying.changes)]
  · refine .inr ⟨?_, fun now copying => ?_⟩
    · rw [has, Option.isSome_eq_false_iff, Option.isNone_iff_eq_none] at missing
      rw [descriptor?, through start (.refl _ start), missing]
      rfl
    · rw [← copying.descriptor?_target rooted missing known, descriptor?,
        through now (.of_changesOnly copying.changes), descriptor?]

end Copying

end Store

namespace Merge

open Store (Copying)
open TraitComposition.Action (succeeded_of_bind)

variable {plan : Plan} {start : Store} {name : String} {descriptor : Descriptor}
  (rooted : start.Rooted) (known : start.hasObject plan.target = true)
  (missing : start.has plan.target name = false) {left : List Conflict} {later : World σ}

include rooted known missing

/-! ### Turns -/

theorem copying_of_turn (turn : Turn σ)
    (copying : start.Copying plan.target name descriptor turn.before.store)
    (shows : turn.name = name → ∀ shown,
      turn.before.store.descriptor? turn.visit.table name = some shown → shown = descriptor)
    (ran : turn.run .exhausted plan = (.ok left, later)) :
    start.Copying plan.target name descriptor later.store ∧
      (turn.before.store.hasOwn plan.target name = true ∨
          turn.name = name ∧ turn.before.store.has turn.visit.table name = true →
        later.store.hasOwn plan.target name = true) := by
  have stands {asked : World σ} (asks : Asked turn.before asked) :
      start.Amid plan.target asked.store ∧ asked.store.ownDescriptor? plan.target name =
        turn.before.store.ownDescriptor? plan.target name :=
    ⟨copying.trans (asks _ (asks_amid plan.target) copying.known),
      asks.changes.own _ _ copying.known id⟩
  have resolves := copying.descriptor?_target rooted missing known
  cases turn.outcome .exhausted plan with
  | nothing asks spared does =>
      cases does.symm.trans ran
      rcases stands asks with ⟨amid, own⟩
      refine ⟨⟨amid, fun existing owned => copying.only existing (own.symm.trans owned)⟩, ?_⟩
      rw [Store.hasOwn_eq_isSome, Store.hasOwn_eq_isSome, own]
      rintro (owned | ⟨rfl, shown⟩)
      · exact owned
      · rw [← resolves, Store.descriptor?, Option.isSome_map]
        exact spared shown
  | hook _ _ does => cases does.symm.trans ran
  | @member asked answer shown asks origin does =>
      rcases stands asks with ⟨amid, own⟩
      rcases succeeded_of_bind (does.symm.trans ran) with ⟨_, _, ranPut, done⟩
      cases done
      rcases stores_of_put (fun _ _ _ => ⟨_, rfl⟩) ranPut with ⟨stored, rfl, stores⟩
      by_cases same : turn.name = name
      · subst same
        have given : shown = descriptor := by
          rcases origin with shown | kept
          · exact shows rfl _ shown
          · rw [asks.changes.descriptor?_eq (copying.changes.rooted rooted) copying.known
              (fun _ _ => id), resolves] at kept
            exact copying.only _ kept
        have again : stored = descriptor := by
          rcases stores with rfl | ⟨existing, value, old, owned, _, valued, rfl⟩
          · exact given
          · rw [copying.only existing (own.symm.trans owned), ← given,
              Descriptor.withValue_of_value? valued]
        have owns := Store.ownDescriptor?_storeMember_same asked.store plan.target turn.name
          stored amid.known
        refine ⟨⟨amid.storeMember turn.name stored, fun existing owned => ?_⟩, fun _ => ?_⟩
        · cases owns.symm.trans owned
          exact again
        · rw [Store.hasOwn_eq_isSome, owns]
          rfl
      · have other := (Store.ownDescriptor?_storeMember_other asked.store stored fun both :
          plan.target = plan.target ∧ name = turn.name => same both.2.symm).trans own
        refine ⟨⟨amid.storeMember turn.name stored,
          fun existing owned => copying.only existing (other.symm.trans owned)⟩, ?_⟩
        rw [Store.hasOwn_eq_isSome, Store.hasOwn_eq_isSome, other]
        rintro (owned | ⟨equal, _⟩)
        · exact owned
        · exact absurd equal same

private theorem copying_of_names {visit : Visit} :
    ∀ {names : List String} {held : List Conflict} {world : World σ},
      start.Copying plan.target name descriptor world.store →
      (name ∈ names → ∀ now, start.Copying plan.target name descriptor now →
        ∀ shown, now.descriptor? visit.table name = some shown → shown = descriptor) →
      (names.foldlM (fun held name => visit.mix .exhausted plan name held) held).run world =
        (.ok left, later) →
      start.Copying plan.target name descriptor later.store ∧
        (world.store.hasOwn plan.target name = true ∨ (name ∈ names ∧
            ∀ now, start.Copying plan.target name descriptor now →
              now.has visit.table name = true) →
          later.store.hasOwn plan.target name = true)
  | [], _, _, copying, _, ran => by
      cases ran
      exact ⟨copying, fun either => either.elim id fun both => nomatch both.1⟩
  | first :: names, held, world, copying, shows, ran => by
      rw [List.foldlM_cons] at ran
      rcases succeeded_of_bind ran with ⟨between, now, ranFirst, ranRest⟩
      let turn : Turn σ := ⟨visit, first, held, world⟩
      have sees (same : first = name) := shows (same ▸ List.mem_cons_self) _ copying
      rcases copying_of_turn rooted known missing turn copying sees ranFirst with ⟨step, owns⟩
      rcases copying_of_names step (fun member => shows (List.mem_cons_of_mem _ member)) ranRest
        with ⟨reached, rest⟩
      refine ⟨reached, fun either => ?_⟩
      rcases either with owned | ⟨member, always⟩
      · exact rest (.inl (owns (.inl owned)))
      · rcases List.mem_cons.mp member with same | member
        · exact rest (.inl (owns (.inr ⟨same.symm, always _ copying⟩)))
        · exact rest (.inr ⟨member, always⟩)

/-! ### Sources -/

section Sources

variable {source : Value} {table : ObjectId} (front : start.front? source = some table)
  (shown : start.descriptor? table name = some descriptor)
  (enumerable : descriptor.enumerable = true)

include front shown enumerable

private theorem copying_of_mixSource {index : Nat} {other : Value} {held : List Conflict}
    {world : World σ} (tables : start.HasTablesOf other)
    (alone : name ∈ start.sourceNames other → other = source)
    (copying : start.Copying plan.target name descriptor world.store)
    (ran : (mixSource .exhausted plan index other held).run world = (.ok left, later)) :
    start.Copying plan.target name descriptor later.store ∧
      (world.store.hasOwn plan.target name = true ∨ other = source →
        later.store.hasOwn plan.target name = true) := by
  rw [run_mixSource_eq_visit] at ran
  cases starts : Visit.start? index other world.store with
  | none =>
      rw [starts] at ran
      cases ran
  | some started =>
      rcases started with ⟨visit, store⟩
      simp only [starts] at ran
      have asked : Asked world { world with store := store } :=
        fun passage asks => Visit.leads_of_start? asks world starts
      have own : store.ownDescriptor? plan.target name =
          world.store.ownDescriptor? plan.target name :=
        asked.changes.own _ _ copying.known id
      rcases Visit.front_or_idle copying.toAmid starts with ⟨amid, visited⟩
      have begun : start.Copying plan.target name descriptor store :=
        ⟨amid, fun existing owned => copying.only existing (own.symm.trans owned)⟩
      rw [Store.hasOwn_eq_isSome world.store, ← own, ← Store.hasOwn_eq_isSome]
      rcases visited with visited | ⟨tableless, idle⟩
      · have sees := Store.Copying.fixed_or_own descriptor rooted missing known
          (tables.front _ visited)
        have shows : name ∈ store.enumerableNames visit.table →
            ∀ now, start.Copying plan.target name descriptor now →
              ∀ again, now.descriptor? visit.table name = some again → again = descriptor := by
          intro listed now copying again found
          rcases sees with fixed | ⟨_, own⟩
          · have among : name ∈ start.sourceNames other := by
              rw [Store.sourceNames_of_front? visited, Store.mem_enumerableNames_iff]
              simpa only [fixed store begun] using Store.mem_enumerableNames_iff.mp listed
            cases alone among
            cases front.symm.trans visited
            rw [fixed now copying, shown] at found
            exact (Option.some.inj found).symm
          · exact copying.only _ ((own now copying).symm.trans found)
        rcases copying_of_names rooted known missing begun shows ran with ⟨reached, owns⟩
        refine ⟨reached, fun either => owns (either.imp_right fun same => ?_)⟩
        subst same
        cases front.symm.trans visited
        rcases sees with fixed | ⟨nothing, _⟩
        · refine ⟨Store.mem_enumerableNames_iff.mpr
            ⟨descriptor, (fixed store begun).trans shown, enumerable⟩, fun now copying => ?_⟩
          exact Store.has_of_descriptor? ((fixed now copying).trans shown)
        · cases nothing.symm.trans shown
      · rw [idle] at ran
        cases ran
        refine ⟨begun, fun either => either.elim id fun same => ?_⟩
        subst same
        cases front.symm.trans tableless

private theorem copying_of_mixSources :
    ∀ {index : Nat} {sources : List Value} {held : List Conflict} {world : World σ},
      (∀ other ∈ sources, start.HasTablesOf other) →
      (∀ other ∈ sources, name ∈ start.sourceNames other → other = source) →
      start.Copying plan.target name descriptor world.store →
      (mixSources .exhausted plan index sources held).run world = (.ok left, later) →
      start.Copying plan.target name descriptor later.store ∧
        (world.store.hasOwn plan.target name = true ∨ source ∈ sources →
          later.store.hasOwn plan.target name = true)
  | _, [], _, _, _, _, copying, ran => by
      cases ran
      exact ⟨copying, fun either => either.elim id fun among => nomatch among⟩
  | index, first :: sources, held, world, tables, alone, copying, ran => by
      rw [List.forall_mem_cons] at tables alone
      rcases succeeded_of_bind ran with ⟨between, now, ranFirst, ranRest⟩
      rcases copying_of_mixSource rooted known missing front shown enumerable tables.1 alone.1
        copying ranFirst with ⟨visited, owns⟩
      rcases copying_of_mixSources tables.2 alone.2 visited ranRest with ⟨reached, rest⟩
      refine ⟨reached, fun either => ?_⟩
      rcases either with owned | among
      · exact rest (.inl (owns (.inl owned)))
      · rcases List.mem_cons.mp among with same | among
        · exact rest (.inl (owns (.inr same.symm)))
        · exact rest (.inr among)

end Sources

end Merge

/-! ### The whole merge -/

/-- What one source alone enumerates is copied as it is. If sources without decorators are merged
and no setter and no definer runs, a name that the destination did not resolve and that exactly one
source enumerates is owned by the destination afterwards, with the descriptor that the table of the
source resolved it to. Nothing is called in such a merge; and in any merge it makes no difference
what getters do. -/
theorem mixin_copies_descriptors {meaning : Meaning σ} {target : ObjectId} {sources : List Value}
    {definer : Definer} {world later : World σ} {conflicts : List Conflict}
    (rooted : world.store.Rooted) (known : world.store.hasObject target = true)
    (tables : ∀ source ∈ sources, world.store.HasTablesOf source)
    (undecorated : ∀ source ∈ sources, world.store.Undecorated source)
    (unwritten : Unwritten (fun meaning => mixin meaning target sources definer) meaning world)
    (ran : (mixin meaning target sources definer).run world = (.ok conflicts, later)) :
    (∀ source ∈ sources, ∀ name ∈ world.store.sourceNames source,
        world.store.has target name = false →
        (∀ other ∈ sources, name ∈ world.store.sourceNames other → other = source) →
        ∃ table descriptor, world.store.front? source = some table ∧
          world.store.descriptor? table name = some descriptor ∧
          later.store.ownDescriptor? target name = some descriptor) ∧
      Unasked (fun meaning => mixin meaning target sources definer) world ∧
      ∀ other : Meaning σ, meaning.AlikeButGetters other →
        mixin other target sources definer = mixin meaning target sources definer := by
  let plan : Merge.Plan := ⟨target, definer, sources⟩
  have there : world.store.hasObject plan.target = true := known
  have quiet : (Merge.mixSources meaning.installing plan 0 sources []).run world =
      (.ok conflicts, later) := by
    rw [← meaning.alike_installing.mixSources_eq plan 0 sources []]
    exact Eq.trans unwritten ran
  have alone : (Merge.mixSources .exhausted plan 0 sources []).run world = (.ok conflicts, later) :=
    Merge.run_mixSources_of_undecorated rooted tables undecorated (.refl known) quiet
  refine ⟨fun source member name listed missing exactly => ?_, unasked_of_ok alone,
    fun other alike => (alike.mixSources_eq plan 0 sources []).symm⟩
  cases front : world.store.front? source with
  | none =>
      rw [Store.sourceNames_of_front?_eq_none front] at listed
      cases listed
  | some table =>
      rw [Store.sourceNames_of_front? front] at listed
      rcases Store.mem_enumerableNames_iff.mp listed with ⟨descriptor, shown, enumerable⟩
      have begun : world.store.Copying target name descriptor world.store :=
        ⟨.refl known, fun existing owned => by
          rw [Store.ownDescriptor?_of_has missing] at owned
          cases owned⟩
      rcases Merge.copying_of_mixSources rooted there missing front shown enumerable tables
        exactly begun alone with ⟨reached, owns⟩
      have owned := owns (.inr member)
      rw [Store.hasOwn_eq_isSome, Option.isSome_iff_exists] at owned
      rcases owned with ⟨existing, owned⟩
      rw [reached.only existing owned] at owned
      exact ⟨table, descriptor, rfl, shown, owned⟩

/-- An object with a value; a bare table with another value for it, which delegates to one with an
accessor that cannot be redefined; a bare table that delegates to the object; and a procedure whose
table has a locked value and a method. -/
def membersToCopy : World Unit where
  store := {
    objects := #[
      { members := .ofEntries [("count", .ofValue .null)] },
      { members := .ofEntries [("size", ⟨.accessor (some ⟨1⟩) (some ⟨2⟩), true, false⟩)] },
      { parent := some ⟨1⟩, members := .ofEntries [("count", .ofValue (.boolean true))] },
      { parent := some ⟨0⟩ },
      { members := .ofEntries [("limit", ⟨.data .null false, true, false⟩),
          ("run", .ofValue (.procedure ⟨4⟩))] }]
    procedures := #[
      { body := .required }, { body := .code ⟨0⟩ }, { body := .code ⟨0⟩ },
      { body := .code ⟨0⟩, table := some ⟨4⟩ }, { body := .code ⟨0⟩ }] }
  state := ()

/-- The inherited accessor and the locked value are copied as they are; that the second table comes
to show the accessor, too, makes no difference. -/
theorem mixin_copies_descriptors_of_accessor :
    ∃ later, (mixin (.ofBudget 1) ⟨0⟩ [.object ⟨2⟩, .object ⟨3⟩, .procedure ⟨3⟩] .raw).run
        membersToCopy = (.ok [], later) ∧
      later.store.ownDescriptor? ⟨0⟩ "size" =
        some ⟨.accessor (some ⟨1⟩) (some ⟨2⟩), true, false⟩ ∧
      later.store.ownDescriptor? ⟨0⟩ "limit" = some ⟨.data .null false, true, false⟩ := by
  have rooted : membersToCopy.store.Rooted := Store.rooted_iff.mpr (by decide)
  have tables : ∀ source ∈ [Value.object ⟨2⟩, .object ⟨3⟩, .procedure ⟨3⟩],
      membersToCopy.store.HasTablesOf source :=
    List.forall_mem_cons.mpr ⟨by decide, List.forall_mem_cons.mpr ⟨by decide,
      List.forall_mem_singleton.mpr (by decide)⟩⟩
  have undecorated : ∀ source ∈ [Value.object ⟨2⟩, .object ⟨3⟩, .procedure ⟨3⟩],
      membersToCopy.store.Undecorated source :=
    fun source _ => Store.undecorated_of_all (by simp [membersToCopy]) source
  have ran : (mixin .exhausted ⟨0⟩ [.object ⟨2⟩, .object ⟨3⟩, .procedure ⟨3⟩] .raw).run
      membersToCopy = (.ok [], _) := Action.run_eq_of_toOption _ _ _ (by decide +kernel)
  have unwritten : Unwritten (fun meaning =>
      mixin meaning ⟨0⟩ [.object ⟨2⟩, .object ⟨3⟩, .procedure ⟨3⟩] .raw)
      (.ofBudget 1) membersToCopy :=
    unasked_of_ok ran _ _
  have direct := upheld_mixin (.ofBudget 1) _ _ _ _ _ _ ran
  rcases mixin_copies_descriptors rooted (by decide) tables undecorated unwritten direct with
    ⟨copied, _⟩
  rcases copied (.object ⟨2⟩) (List.mem_cons_self ..) "size" (by decide +kernel) (by decide +kernel)
    (List.forall_mem_cons.mpr ⟨fun _ => rfl, List.forall_mem_cons.mpr
      ⟨fun listed => absurd listed (by decide +kernel), List.forall_mem_singleton.mpr
        fun listed => absurd listed (by decide +kernel)⟩⟩) with ⟨_, _, ⟨⟩, ⟨⟩, accessor⟩
  rcases copied (.procedure ⟨3⟩) (by simp) "limit" (by decide +kernel) (by decide +kernel)
    (List.forall_mem_cons.mpr ⟨fun listed => absurd listed (by decide +kernel),
      List.forall_mem_cons.mpr ⟨fun listed => absurd listed (by decide +kernel),
        List.forall_mem_singleton.mpr fun _ => rfl⟩⟩) with ⟨_, _, ⟨⟩, ⟨⟩, locked⟩
  exact ⟨_, direct, accessor, locked⟩

end TraitComposition
