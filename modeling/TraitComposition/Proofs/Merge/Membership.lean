import TraitComposition.Proofs.Machine.Growth
import TraitComposition.Proofs.Merge.Undecorated

/-!
Which members a destination has after a merge, if user code writes to no object. No name that it
resolved is lost, and those of the sources are there: each has its turn, at which a member is put
on the destination or the hook of a decorator leaves one, unless the destination resolves the name
already. Nor is a name invented. What the destination comes to own follows what it owned, and a
source has enumerated it from the start, even if the source delegates to the destination.
-/
namespace TraitComposition

variable {σ : Type}

namespace Store

/-! ### Names that are accounted for -/

/-- Whether the method that a table holds under a name is there, if it holds one, and carries no
hook but that of a builder. -/
def PlainOrBuilt (store : Store) (table : ObjectId) (name : String) : Prop :=
  ∀ method ∈ (store.descriptor? table name).bind Descriptor.method?,
    store.hasProcedure method = true ∧ ∀ hook ∈ (store.procedure method).hook, hook.Built

instance (store : Store) (table : ObjectId) : DecidablePred (store.PlainOrBuilt table) :=
  fun _ => inferInstanceAs (Decidable (∀ method ∈ _, _ ∧ ∀ hook ∈ _, Hook.Built hook))

def BuiltDecorators (store : Store) (source : Value) : Prop :=
  ∀ table ∈ store.front? source, ∀ name ∈ store.enumerableNames table,
    store.PlainOrBuilt table name

instance (store : Store) : DecidablePred store.BuiltDecorators :=
  fun _ => inferInstanceAs (Decidable (∀ table ∈ _, ∀ name ∈ _, store.PlainOrBuilt table name))

private theorem blank_iff {store : Store} {object : ObjectId} :
    store.Blank object ↔ store.parent object = none ∧ store.ownNames object = [] := by
  constructor
  · rintro ⟨alone, bare⟩
    refine ⟨alone, List.eq_nil_iff_forall_not_mem.mpr fun name owned => ?_⟩
    rcases mem_ownNames_iff.mp owned with ⟨_, owned⟩
    cases (bare name).symm.trans owned
  · rintro ⟨alone, bare⟩
    exact ⟨alone, fun name => ownDescriptor?_of_not_mem (bare ▸ List.not_mem_nil)⟩

instance (store : Store) : DecidablePred store.Blank :=
  fun _ => decidable_of_iff' _ blank_iff

def Accounted (store : Store) (target : ObjectId) (sources : List Value) (name : String) : Prop :=
  name ∈ store.ownNames target ∨ ∃ source ∈ sources, name ∈ store.sourceNames source

namespace Grows

variable {target : ObjectId} {names : String → Prop} {start now : Store}

theorem blank_of_blank (grows : Grows target names start now) {table : ObjectId}
    (blank : now.Blank table) : start.Blank table := by
  cases known : start.hasObject table with
  | false => exact blank_of_not_hasObject known
  | true =>
      refine ⟨(grows.extends_.object table known).2.symm.trans blank.alone, fun name => ?_⟩
      by_cases same : table = target
      · subst same
        refine ownDescriptor?_of_not_mem fun owned => ?_
        rcases mem_ownNames_iff.mp (grows.kept.subset owned) with ⟨_, owned⟩
        cases (blank.bare name).symm.trans owned
      · exact (grows.own table name known same).symm.trans (blank.bare name)

variable {sources : List Value} (grows : Grows target (start.Accounted target sources) start now)
  (rooted : start.Rooted) {source : Value} (member : source ∈ sources) {table : ObjectId}
  (front : start.front? source = some table) (there : start.hasObject table = true)

include grows rooted member front there

theorem accounted {name : String} (listed : name ∈ now.enumerableNames table) :
    start.Accounted target sources name := by
  by_cases owned : name ∈ now.ownNames target
  · exact (grows.gained name owned).elim .inl id
  · rw [mem_enumerableNames_iff, grows.descriptor?_eq rooted there owned,
      ← mem_enumerableNames_iff, ← sourceNames_of_front? front] at listed
    exact .inr ⟨source, member, listed⟩

end Grows

end Store

namespace Merge

open Store (Grows)
open TraitComposition.Action (succeeded_of_bind)

variable {budget : Nat} {plan : Plan} {start : Store} {names : String → Prop}
  {left : List Conflict} {later : World σ}

/-! ### Turns -/

private theorem Turn.grows (turn : Turn σ) (known : turn.before.store.hasObject plan.target = true)
    (inside : names turn.name)
    (ran : turn.run (.sheltering (fun _ => True) budget) plan = (.ok left, later)) :
    Grows plan.target names turn.before.store later.store := by
  have grows : (Passage.growing σ plan.target names).leads turn.before
      (turn.run (.sheltering (fun _ => True) budget) plan).2 :=
    turn.visit.follows_mix (respects_growing inside) turn.held turn.before
  rw [ran] at grows
  exact grows known

variable (raw : plan.definer = .raw) (rooted : start.Rooted)
  (known : start.hasObject plan.target = true)

include raw rooted known

theorem Turn.has_of_shown (turn : Turn σ)
    (sofar : Grows plan.target names start turn.before.store)
    (there : start.hasObject turn.visit.table = true)
    (shown : start.has turn.visit.table turn.name = true)
    (built : start.PlainOrBuilt turn.visit.table turn.name)
    (ran : turn.run (.sheltering (fun _ => True) budget) plan = (.ok left, later)) :
    later.store.has plan.target turn.name = true := by
  have knownNow := sofar.known known
  have rootedNow := sofar.rooted rooted
  cases resolved : turn.before.store.has plan.target turn.name with
  | true =>
      have grows : Grows plan.target (fun _ => True) turn.before.store later.store :=
        turn.grows knownNow trivial ran
      exact grows.has rootedNow knownNow resolved
  | false =>
      have same := sofar.lookup_eq rooted there (Store.not_mem_ownNames_of_has resolved)
      cases turn.outcome (.sheltering (fun _ => True) budget) plan with
      | nothing _ spared _ =>
          rw [Store.has, ← same] at shown
          cases resolved.symm.trans (spared shown)
      | hook decorates hooked does =>
          have method := method?_of_decorator? decorates
          rw [method?, Store.descriptor?, same, ← Store.descriptor?] at method
          rcases built _ method with ⟨made, carries⟩
          rw [sofar.extends_.hook made] at hooked
          rcases succeeded_of_bind (does.symm.trans ran) with ⟨_, _, installed, done⟩
          cases done
          exact Meaning.has_of_install rootedNow knownNow resolved (carries _ hooked) installed
      | @member asked answer given asks origin does =>
          rcases succeeded_of_bind (does.symm.trans ran) with ⟨_, _, ranPut, done⟩
          cases done
          have missing := (asks.changes.has_eq rootedNow knownNow turn.name).trans resolved
          rw [run_put_of_not_owned _ plan given raw (Store.ownDescriptor?_of_has missing)] at ranPut
          cases ranPut
          exact Store.has_of_own (Store.ownDescriptor?_storeMember_same _ _ _ _
            (asks.changes.extends_.object _ knownNow).1)

theorem members_of_names {visit : Visit} (there : start.hasObject visit.table = true) :
    ∀ {listed : List String} {held : List Conflict} {world : World σ},
      Grows plan.target names start world.store → (∀ name ∈ listed, names name) →
      (listed.foldlM (fun held name =>
        visit.mix (.sheltering (fun _ => True) budget) plan name held) held).run world =
          (.ok left, later) →
      Grows plan.target names world.store later.store ∧
        ∀ name ∈ listed, start.has visit.table name = true → start.PlainOrBuilt visit.table name →
          later.store.has plan.target name = true
  | [], _, _, _, _, ran => by
      cases ran
      exact ⟨.refl _ _ _, List.forall_mem_nil _⟩
  | first :: listed, held, world, sofar, inside, ran => by
      rw [List.forall_mem_cons] at inside
      rw [List.foldlM_cons] at ran
      rcases succeeded_of_bind ran with ⟨between, now, ranFirst, ranRest⟩
      let turn : Turn σ := ⟨visit, first, held, world⟩
      have grows : Grows plan.target names world.store now.store :=
        turn.grows (sofar.known known) inside.1 ranFirst
      have reached := sofar.trans grows
      rcases members_of_names there reached inside.2 ranRest with ⟨rest, members⟩
      refine ⟨grows.trans rest, List.forall_mem_cons.mpr ⟨fun shown built => ?_, members⟩⟩
      have here := turn.has_of_shown raw rooted known sofar there shown built ranFirst
      exact rest.has (reached.rooted rooted) (reached.known known) here

omit raw rooted known

/-! ### Sources -/

theorem Visit.front_or_blank {target : ObjectId} {now after final : Store} {index : Nat}
    {source : Value} {visit : Visit} (present : start.Present source)
    (tables : start.HasTablesOf source) (extends_ : start.Extends now)
    (starts : Visit.start? index source now = some (visit, after))
    (grows : Grows target names after final)
    (unfilled : start.front? source = none →
      ∀ table ∈ final.front? source, final.Blank table) :
    start.front? source = some visit.table ∨
      start.front? source = none ∧ after.enumerableNames visit.table = [] := by
  cases front : start.front? source with
  | some table =>
      have fronts := present.fronts_of_front? front (tables.front table front)
      rw [Visit.table_of_start? starts (fronts.extends extends_)]
      exact .inl rfl
  | none =>
      cases source with
      | procedure procedure =>
          have fronts := (present.extends extends_).fronts
          cases starts
          have asked := asks_within .nowhere |>.prototypes [.procedure procedure]
            (⟨(now.prototypeOf procedure).2, #[], ()⟩ : World Unit)
          have last := (fronts.extends asked.extends_).extends grows.extends_
          exact .inr ⟨rfl, (grows.blank_of_blank
            (unfilled front _ last.front?_eq)).enumerableNames_eq_nil⟩
      | object table => cases front
      | _ => cases starts

section Sources

variable (raw : plan.definer = .raw) (rooted : start.Rooted)
  (known : start.hasObject plan.target = true) {sources : List Value}
  (present : ∀ source ∈ sources, start.Present source)
  (tables : ∀ source ∈ sources, start.HasTablesOf source)

include raw rooted known present tables

private theorem members_of_mixSource {index : Nat} {source : Value} (member : source ∈ sources)
    {held : List Conflict} {world : World σ} {final : Store}
    (sofar : Grows plan.target (start.Accounted plan.target sources) start world.store)
    (ran : (mixSource (.sheltering (fun _ => True) budget) plan index source held).run world =
      (.ok left, later))
    (onward : later.store.hasObject plan.target = true →
      Grows plan.target (fun _ => True) later.store final)
    (unfilled : start.front? source = none →
      ∀ table ∈ final.front? source, final.Blank table) :
    Grows plan.target (start.Accounted plan.target sources) world.store later.store ∧
      (start.BuiltDecorators source → ∀ name ∈ start.sourceNames source,
        later.store.has plan.target name = true) := by
  rw [run_mixSource_eq_visit] at ran
  cases starts : Visit.start? index source world.store with
  | none =>
      rw [starts] at ran
      cases ran
  | some started =>
      rcases started with ⟨visit, store⟩
      simp only [starts] at ran
      have asked : Grows plan.target (start.Accounted plan.target sources) world.store store :=
        Visit.leads_of_start? asks_growing world starts (sofar.known known)
      have begun := sofar.trans asked
      have grows : Grows plan.target (fun _ => True) store final := by
        have follows : (Passage.growing σ plan.target fun _ => True).leads
            { world with store := store } (((store.enumerableNames visit.table).foldlM
              (fun held name => visit.mix (.sheltering (fun _ => True) budget) plan name held)
              held).run { world with store := store }).2 :=
          Action.Follows.foldlM (fun held name => visit.follows_mix (respects_growing trivial) held)
            _ held _
        rw [ran] at follows
        have visited := follows (begun.known known)
        exact visited.trans (onward (visited.known (begun.known known)))
      rcases Visit.front_or_blank (present source member) (tables source member) sofar.extends_
        starts grows unfilled with front | ⟨tableless, idle⟩
      · have there := (tables source member).front _ front
        rcases members_of_names raw rooted known there begun
          (fun name listed => begun.accounted rooted member front there listed) ran with
          ⟨reached, members⟩
        refine ⟨asked.trans reached, fun built name listed => ?_⟩
        rw [Store.sourceNames_of_front? front] at listed
        by_cases owned : name ∈ store.ownNames plan.target
        · exact reached.has (begun.rooted rooted) (begun.known known)
            (Store.has_of_mem_ownNames owned)
        · refine members name ?_ (Store.has_of_mem_enumerableNames listed)
            (built _ front name listed)
          rwa [Store.mem_enumerableNames_iff, begun.descriptor?_eq rooted there owned,
            ← Store.mem_enumerableNames_iff]
      · rw [idle] at ran
        cases ran
        refine ⟨asked, fun _ name listed => ?_⟩
        rw [Store.sourceNames_of_front?_eq_none tableless] at listed
        cases listed

private theorem members_of_mixSources :
    ∀ {index : Nat} {rest : List Value} {held : List Conflict} {world : World σ},
      (∀ source ∈ rest, source ∈ sources) →
      Grows plan.target (start.Accounted plan.target sources) start world.store →
      (∀ source ∈ rest, start.front? source = none →
        ∀ table ∈ later.store.front? source, later.store.Blank table) →
      (mixSources (.sheltering (fun _ => True) budget) plan index rest held).run world =
        (.ok left, later) →
      Grows plan.target (start.Accounted plan.target sources) world.store later.store ∧
        ∀ source ∈ rest, start.BuiltDecorators source → ∀ name ∈ start.sourceNames source,
          later.store.has plan.target name = true
  | _, [], _, _, _, _, _, ran => by
      cases ran
      exact ⟨.refl _ _ _, List.forall_mem_nil _⟩
  | index, source :: rest, held, world, within, sofar, unfilled, ran => by
      rw [List.forall_mem_cons] at within unfilled
      rcases succeeded_of_bind ran with ⟨between, now, ranFirst, ranRest⟩
      have onward : (Passage.growing σ plan.target fun _ => True).leads now
          ((mixSources (.sheltering (fun _ => True) budget) plan (index + 1) rest between).run
            now).2 :=
        follows_mixSources (fun _ => respects_growing trivial) (index + 1) rest between now
      rw [ranRest] at onward
      rcases members_of_mixSource raw rooted known present tables within.1 sofar ranFirst onward
        unfilled.1 with ⟨visited, members⟩
      have reached := sofar.trans visited
      rcases members_of_mixSources within.2 reached unfilled.2 ranRest with ⟨rest, others⟩
      refine ⟨visited.trans rest, List.forall_mem_cons.mpr ⟨fun built name listed => ?_, others⟩⟩
      exact rest.has (reached.rooted rooted) (reached.known known) (members built name listed)

end Sources

end Merge

/-! ### The whole merge -/

/-- No member is lost and none is invented. If members are defined directly and user code writes to
no object, not even to tables that procedures are given meanwhile, then a destination resolves after
a merge whatever it resolved before, and whatever is enumerated by a source of which the decorators
are those that builders make. It still owns what it owned, in the same order and before all else,
and of the rest that it owns each name is enumerated by some source. -/
theorem mixin_accounts_for_names {budget : Nat} {target : ObjectId} {sources : List Value}
    {world later : World σ} {conflicts : List Conflict} (rooted : world.store.Rooted)
    (known : world.store.hasObject target = true)
    (present : ∀ source ∈ sources, world.store.Present source)
    (tables : ∀ source ∈ sources, world.store.HasTablesOf source)
    (harmless : Harmless (fun _ => True) (fun meaning => mixin meaning target sources .raw) budget
      world)
    (unfilled : ∀ source ∈ sources, world.store.front? source = none →
      ∀ table ∈ later.store.front? source, later.store.Blank table)
    (ran : (mixin (.ofBudget budget) target sources .raw).run world = (.ok conflicts, later)) :
    (∀ name, world.store.has target name = true → later.store.has target name = true) ∧
      (∀ source ∈ sources, world.store.BuiltDecorators source →
        ∀ name ∈ world.store.sourceNames source, later.store.has target name = true) ∧
      world.store.ownNames target <+: later.store.ownNames target ∧
      ∀ name ∈ later.store.ownNames target, name ∈ world.store.ownNames target ∨
        ∃ source ∈ sources, name ∈ world.store.sourceNames source := by
  let plan : Merge.Plan := ⟨target, .raw, sources⟩
  have sheltered : (Merge.mixSources (.sheltering (fun _ => True) budget) plan 0 sources []).run
      world = (.ok conflicts, later) := Eq.trans harmless ran
  have raw : plan.definer = .raw := rfl
  rcases Merge.members_of_mixSources raw rooted known present tables (fun _ member => member)
    (.refl _ _ _) unfilled sheltered with ⟨grows, members⟩
  exact ⟨fun name => grows.has rooted known, members, grows.kept,
    fun name owned => (grows.gained name owned).elim .inl id⟩

/-- An object with two members; a bare table of decorators, which are of advice, of a patch and of
an alias; a bare table that delegates to the object; a procedure with a method in its table, and
one that has no table yet. -/
def decoratedMembers : World Unit where
  store := {
    objects := #[
      { members := .ofEntries [("x", .ofValue .null), ("p", .ofValue .null)] },
      { members := .ofEntries [("m", .ofValue (.procedure ⟨1⟩)),
          ("p", .ofValue (.procedure ⟨2⟩)), ("a", .ofValue (.procedure ⟨3⟩))] },
      { parent := some ⟨0⟩ },
      { members := .ofEntries [("run", .ofValue (.procedure ⟨6⟩))] }]
    procedures := #[
      { body := .required },
      { body := .unapplied none, hook := some (.weave (.single ⟨0⟩)) },
      { body := .unapplied none, hook := some (.patch { enumerable := some false }) },
      { body := .unapplied none, hook := some (.aliased (.member "x") none none) },
      { body := .code ⟨0⟩, table := some ⟨3⟩ }, { body := .code ⟨0⟩ }, { body := .code ⟨0⟩ }]
    layers := #[{ advice := .before ⟨0⟩ }] }
  state := ()

/-- The decorators leave members, which the table that delegates to the object enumerates, too. -/
theorem mixin_accounts_for_names_of_decorators :
    ∃ later, (mixin (.ofBudget 2) ⟨0⟩ [.object ⟨1⟩, .procedure ⟨4⟩, .procedure ⟨5⟩, .object ⟨2⟩]
        .raw).run decoratedMembers = (.ok [], later) ∧
      (∀ name ∈ ["x", "p", "m", "a", "run"], later.store.has ⟨0⟩ name = true) ∧
      ["x", "p"] <+: later.store.ownNames ⟨0⟩ ∧
      ∀ name ∈ later.store.ownNames ⟨0⟩, name ∈ ["x", "p", "m", "a", "run"] := by
  let sources : List Value := [.object ⟨1⟩, .procedure ⟨4⟩, .procedure ⟨5⟩, .object ⟨2⟩]
  have ran : (mixin (.uncalled 2) ⟨0⟩ sources .raw).run decoratedMembers = (.ok [], _) :=
    Action.run_eq_of_toOption _ _ _ (by decide +kernel)
  have direct := (Meaning.upheldBy_uncalled 2).mixin _ _ _ _ _ _ ran
  have present : ∀ source ∈ sources, decoratedMembers.store.Present source :=
    List.forall_mem_cons.mpr ⟨.table (by decide), List.forall_mem_cons.mpr ⟨.plain (by decide),
      List.forall_mem_cons.mpr ⟨.plain (by decide),
        List.forall_mem_singleton.mpr (.table (by decide))⟩⟩⟩
  have tables : ∀ source ∈ sources, decoratedMembers.store.HasTablesOf source := by decide
  have built : ∀ source ∈ sources, decoratedMembers.store.BuiltDecorators source := by
    decide +kernel
  have listed : ∀ source ∈ sources, ∀ name ∈ decoratedMembers.store.sourceNames source,
      name ∈ ["x", "p", "m", "a", "run"] := by
    decide +kernel
  have first : .object ⟨1⟩ ∈ sources := List.mem_cons_self ..
  have second : .procedure ⟨4⟩ ∈ sources := List.mem_cons_of_mem _ (List.mem_cons_self ..)
  have owned : decoratedMembers.store.ownNames ⟨0⟩ = ["x", "p"] := by decide +kernel
  rcases mixin_accounts_for_names (Store.rooted_iff.mpr (by decide)) (by decide) present tables
    (harmless_of_uncalled ran) (by decide +kernel) direct with ⟨kept, members, order, accounted⟩
  rw [owned] at order
  refine ⟨_, direct, ?_, order, fun name owns => ?_⟩
  · have fromTable := members _ first (built _ first)
    have fromProcedure := members _ second (built _ second)
    exact List.forall_mem_cons.mpr ⟨kept "x" (by decide +kernel), List.forall_mem_cons.mpr
      ⟨fromTable "p" (by decide +kernel), List.forall_mem_cons.mpr
        ⟨fromTable "m" (by decide +kernel), List.forall_mem_cons.mpr
          ⟨fromTable "a" (by decide +kernel), List.forall_mem_singleton.mpr
            (fromProcedure "run" (by decide +kernel))⟩⟩⟩⟩
  · rcases accounted name owns with before | ⟨source, member, enumerates⟩
    · rw [owned] at before
      exact (by decide : ["x", "p"] ⊆ ["x", "p", "m", "a", "run"]) before
    · exact listed source member name enumerates

end TraitComposition
