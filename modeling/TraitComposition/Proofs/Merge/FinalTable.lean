import Mathlib.Data.List.Nodup
import TraitComposition.Proofs.Machine.Uncalled
import TraitComposition.Proofs.Merge.Conflicts
import TraitComposition.Proofs.Merge.FreshSources
import TraitComposition.Proofs.Merge.Turns

/-!
Bare tables that are merged last. The members of such a table are copied or installed whatever
the sources before it have left, which settles the conflicts under their names; only a
requirement gives way to what is there, and leaves a conflict as it is.
-/
namespace TraitComposition

open TraitComposition.Action (succeeded_of_bind)

variable {σ : Type} {budget : Nat}

/-! ### Aliases -/

def Store.aliased? (store : Store) (source : AliasSource) (member : Option String)
    (captured : Option Descriptor) (target : ObjectId) (name : String) : Option Descriptor :=
  match source with
  | .member sourceName => store.descriptor? target sourceName
  | .trait trait => captured.or (store.traitDescriptor trait (member.getD name)).1

theorem Store.aliased?_of_apart {before after : Store} {target origin : ObjectId}
    (changes : ChangesOnly target before after) (rooted : before.Rooted) {trait : Value}
    (fronts : before.Fronts trait origin) (known : before.hasObject origin = true)
    (apart : target ∉ before.ancestry origin) (member : Option String)
    (captured : Option Descriptor) (name : String) :
    after.aliased? (.trait trait) member captured target name =
      captured.or (before.descriptor? origin (member.getD name)) := by
  have frontsAfter := fronts.extends changes.extends_
  rw [← changes.descriptor?_eq rooted known apart]
  cases trait with
  | procedure procedure =>
    rw [aliased?, traitDescriptor, traitTable, frontsAfter.prototypeOf_eq]
    rfl
  | object object =>
    cases frontsAfter
    rfl
  | _ => cases frontsAfter

namespace Decorator

variable (source : AliasSource) (member : Option String) (captured : Option Descriptor)
  (target : ObjectId) (name : String) (world : World σ)

theorem exists_run_aliasedDescriptor :
    ∃ sourceName asked, (aliasedDescriptor source member captured target name).run world =
        (.ok (sourceName, world.store.aliased? source member captured target name),
          { world with store := asked }) ∧
      world.store.Extends asked := by
  cases source with
  | member sourceName => exact ⟨sourceName, world.store, rfl, .refl _⟩
  | trait trait =>
    cases captured with
    | some descriptor => exact ⟨member.getD name, world.store, rfl, .refl _⟩
    | none =>
      refine ⟨member.getD name, _, rfl, ?_⟩
      cases trait with
      | procedure procedure => exact .of_prototypeOf world.store procedure
      | _ => exact .refl _

variable {source member captured target name world}

theorem own_of_installAlias {later : World σ} (known : world.store.hasObject target = true)
    (ran : (installAlias source member captured target name).run world = (.ok (), later)) :
    ∃ found, world.store.aliased? source member captured target name = some found ∧
      later.store.ownDescriptor? target name = some found := by
  rcases exists_run_aliasedDescriptor source member captured target name world with
    ⟨sourceName, asked, found, extends_⟩
  rw [installAlias, Action.run_bind_of_ok _ found] at ran
  cases aliased : world.store.aliased? source member captured target name with
  | none =>
    rw [aliased] at ran
    cases ran
  | some descriptor =>
    rw [aliased] at ran
    exact ⟨descriptor, rfl, Member.own_of_define (extends_.object target known).1 ran⟩

end Decorator

def Store.Copied (store : Store) (value : Value) : Prop :=
  ∀ method, value = .procedure method →
    (store.procedure method).hook = none ∧ store.isRequired method = false

theorem Store.Copied.extends {before after : Store} {value : Value} (copied : before.Copied value)
    (extends_ : before.Extends after) : after.Copied value := by
  intro method holds
  rcases copied method holds with ⟨unhooked, implemented⟩
  have known := hasProcedure_of_implemented implemented
  exact ⟨(extends_.hook known).trans unhooked, (extends_.isRequired known).trans implemented⟩

/-! ### Conflicts held back -/

namespace Merge

variable {plan : Plan} {world later : World σ} {held left : List Conflict} {name : String}
  {table : ObjectId}

private theorem respects_uncalled (budget : Nat) (plan : Plan) (name : String) :
    Respects (Passage.gaining σ plan.target (· = name)) (.uncalled budget) plan name :=
  respects_gaining plan (Meaning.installsGain_uncalled budget) rfl

structure Owned (plan : Plan) (world : World σ) (held : List Conflict) : Prop where
  known : world.store.hasObject plan.target = true
  hasOwn : ∀ conflict ∈ held, world.store.hasOwn plan.target conflict.member = true

namespace Owned

variable {names : String → Prop} (owned : Owned plan world held)

include owned

private theorem gain (gains : (Passage.gaining σ plan.target names).leads world later) :
    Owned plan later held where
  known := ((gains owned.known).extends_.object _ owned.known).1
  hasOwn conflict member := (gains owned.known).kept _ (owned.hasOwn conflict member)

private theorem settle (name : String) : Owned plan world (settleConflict name held) where
  known := owned.known
  hasOwn conflict member := owned.hasOwn conflict (List.mem_filter.mp member).1

private theorem hold {conflict : Conflict}
    (own : world.store.hasOwn plan.target conflict.member = true) :
    Owned plan world (holdConflict conflict held) where
  known := owned.known
  hasOwn other member := by
    rcases mem_of_mem_holdConflict member with rfl | member
    · exact own
    · exact owned.hasOwn other member

theorem of_mixMethod {index : Nat} {chain : List ObjectId}
    (ran : (mixMethod (.uncalled budget) plan index table chain name held).run world =
      (.ok left, later)) :
    Owned plan later left := by
  have respects : Respects (Passage.gaining σ plan.target (· = name)) (.uncalled budget) plan
      name := respects_uncalled budget plan name
  have gains := respects.mixMethod index table chain held world
  rw [ran] at gains
  have before := owned.gain gains
  rcases left_or_weighed_of_mixMethod ran with
    rfl | rfl | ⟨owner, descriptor, incoming, _, method, weighed⟩
  · exact before
  · exact before.settle name
  · rcases succeeded_of_bind weighed with ⟨resolution, asked, ranWeigh, carried⟩
    rcases left_of_carryOut carried with rfl | ⟨existing, rfl, rfl⟩
    · exact before
    · have asks : (Passage.gaining σ plan.target (· = name)).leads world
          ((weigh plan index name (owner == table) incoming chain
            (world.store.dataValue? plan.target name)).run world).2 :=
        follows_weigh respects.asks _ _ _ _ _ _ world
      rw [ranWeigh] at asks
      rcases succeeded_of_bind carried with ⟨_, _, ranPut, done⟩
      cases done
      rcases own_of_put (Meaning.refuses_uncalled budget) (owned.gain asks).known
        (Descriptor.value?_of_method? method) ranPut with ⟨stored, own, _⟩
      exact before.hold (by rw [Store.hasOwn_eq_isSome, own]; rfl)

private theorem of_mixMember
    (ran : (mixMember (.uncalled budget) plan table name held).run world = (.ok left, later)) :
    Owned plan later left := by
  have gains := (respects_uncalled budget plan name).mixMember table held world
  rw [ran] at gains
  rcases left_of_mixMember ran with rfl | rfl
  · exact owned.gain gains
  · exact (owned.gain gains).settle name

private theorem of_mixSource {index : Nat} {source : Value}
    (ran : (mixSource (.uncalled budget) plan index source held).run world = (.ok left, later)) :
    Owned plan later left := by
  have asks : Asks (Passage.gaining σ plan.target (· = "")) :=
    (respects_uncalled budget plan "").asks
  cases source with
  | procedure procedure =>
      rcases succeeded_of_bind ran with ⟨table, between, ranTable, ran⟩
      rcases succeeded_of_bind ran with ⟨chain, asked, ranChain, ran⟩
      have first := asks procedure world
      rw [ranTable] at first
      have second := asks.prototypes [.procedure procedure] between
      rw [ranChain] at second
      rw [Action.run_getStore_bind] at ran
      exact Action.foldlM_keeps (fun world held => Owned plan world held)
        (fun _ owned ran => of_mixMethod owned ran) ((owned.gain first).gain second) ran
  | object table =>
      rw [mixSource, Action.run_getStore_bind] at ran
      exact Action.foldlM_keeps (fun world held => Owned plan world held)
        (fun _ owned ran => of_mixMember owned ran) owned ran
  | _ => cases ran

private theorem of_mixSources {index : Nat} {sources : List Value}
    (ran : (mixSources (.uncalled budget) plan index sources held).run world =
      (.ok left, later)) :
    Owned plan later left := by
  induction sources generalizing index held world with
  | nil =>
      cases ran
      exact owned
  | cons source sources induction =>
      rcases succeeded_of_bind ran with ⟨_, _, ranFirst, ranRest⟩
      exact induction (owned.of_mixSource ranFirst) ranRest

end Owned

/-! ### The turns of a bare table -/

theorem gains_of_others :
    ∀ {names : List String} {held : List Conflict} {world : World σ}, name ∉ names →
      world.store.hasObject plan.target = true →
      (names.foldlM (fun held other => mixMember (.uncalled budget) plan table other held)
        held).run world = (.ok left, later) →
      Store.Gains plan.target (· ≠ name) world.store later.store ∧
        ∀ conflict, conflict.member = name → (conflict ∈ left ↔ conflict ∈ held)
  | [], _, world, _, _, ran => by
      cases ran
      exact ⟨.refl _ _ _, fun _ _ => Iff.rfl⟩
  | other :: names, held, world, apart, known, ran => by
      rw [List.mem_cons, not_or] at apart
      rw [List.foldlM_cons] at ran
      rcases succeeded_of_bind ran with ⟨between, now, ranFirst, ranRest⟩
      have gains := (respects_uncalled budget plan other).mixMember table held world
      rw [ranFirst] at gains
      have first : Store.Gains plan.target (· ≠ name) world.store now.store :=
        (gains known).mono fun _ same => same ▸ Ne.symm apart.1
      rcases gains_of_others apart.2 (first.extends_.object _ known).1 ranRest with ⟨rest, kept⟩
      refine ⟨first.trans rest, fun conflict about => (kept conflict about).trans ?_⟩
      rcases left_of_mixMember ranFirst with rfl | rfl
      · exact Iff.rfl
      · simp [settleConflict, about, apart.1]

private theorem not_mem_settleConflict {conflict : Conflict} (about : conflict.member = name) :
    conflict ∉ settleConflict name held := by
  simp [settleConflict, about]

theorem settles_of_value {descriptor : Descriptor} {value : Value}
    (known : world.store.hasObject plan.target = true)
    (owned : world.store.ownDescriptor? table name = some descriptor)
    (valued : descriptor.value? = some value) (copied : world.store.Copied value)
    (ran : (mixMember (.uncalled budget) plan table name held).run world = (.ok left, later)) :
    left = settleConflict name held ∧
      ∃ stored, later.store.ownDescriptor? plan.target name = some stored ∧
        stored.value? = some value := by
  have put : (put (.uncalled budget) plan name descriptor >>= fun _ =>
      pure (settleConflict name held)).run world = (.ok left, later) := by
    have found := Store.lookup_of_own owned
    rw [← settledBy_self table]
    cases method : descriptor.method? with
    | none => rwa [run_mixMember_of_value _ plan held found method] at ran
    | some incoming =>
      rw [Descriptor.value?_of_method? method] at valued
      cases valued
      rcases copied incoming rfl with ⟨unhooked, implemented⟩
      rw [run_mixMember_of_unhooked _ plan held found method unhooked, implemented] at ran
      exact ran
  rcases succeeded_of_bind put with ⟨_, _, ranPut, done⟩
  cases done
  exact ⟨rfl, own_of_put (Meaning.refuses_uncalled budget) known valued ranPut⟩

theorem settles_of_alias {descriptor : Descriptor} {method : ProcedureId}
    {source : AliasSource} {member : Option String} {captured : Option Descriptor}
    (known : world.store.hasObject plan.target = true)
    (resolved : world.store.descriptor? table name = some descriptor)
    (holds : descriptor.method? = some method)
    (hooked : (world.store.procedure method).hook = some (.aliased source member captured))
    (ran : (mixMember (.uncalled budget) plan table name held).run world = (.ok left, later)) :
    left = settleConflict name held ∧
      ∃ found, world.store.aliased? source member captured plan.target name = some found ∧
        later.store.ownDescriptor? plan.target name = some found := by
  rcases Option.map_eq_some_iff.mp resolved with ⟨⟨owner, shown⟩, found, rfl⟩
  rw [run_mixMember_of_hook _ plan held found holds hooked] at ran
  rcases succeeded_of_bind ran with ⟨_, _, ranInstall, done⟩
  cases done
  cases budget with
  | zero => cases ranInstall
  | succ budget => exact ⟨rfl, Decorator.own_of_installAlias known ranInstall⟩

/-- Whether a world is one in which a name of a bare table has its turn, with the conflicts that
are held back by then: the names before it have had theirs. -/
def Comes (meaning : Meaning σ) (plan : Plan) (table : ObjectId) (held : List Conflict)
    (start : World σ) (name : String) (passed : List Conflict) (front : World σ) : Prop :=
  ∃ before after, start.store.enumerableNames table = before ++ name :: after ∧
    (before.foldlM (fun held other => mixMember meaning plan table other held) held).run start =
      (.ok passed, front)

structure Takes (budget : Nat) (plan : Plan) (table : ObjectId) (name : String)
    (held passed left conflicts : List Conflict) (start front back later : World σ) : Prop where
  comes : Comes (.ofBudget budget) plan table held start name passed front
  gains : Store.Gains plan.target (· ≠ name) start.store front.store
  pending : ∀ conflict, conflict.member = name → (conflict ∈ passed ↔ conflict ∈ held)
  ran : (mixMember (.uncalled budget) plan table name passed).run front = (.ok left, back)
  stays : later.store.ownDescriptor? plan.target name = back.store.ownDescriptor? plan.target name
  answered : ∀ conflict, conflict.member = name → (conflict ∈ conflicts ↔ conflict ∈ left)

private theorem Takes.descriptor?_eq {passed conflicts : List Conflict} {front back : World σ}
    (takes : Takes budget plan table name held passed left conflicts world front back later)
    (rooted : world.store.Rooted) {descriptor : Descriptor}
    (resolved : world.store.descriptor? table name = some descriptor) :
    front.store.descriptor? table name = some descriptor := by
  rw [← resolved, Store.descriptor?, Store.descriptor?,
    takes.gains.lookup_eq (Store.hasObject_of_descriptor? resolved) (fun differs => differs rfl)
      rooted]

section Visit

variable {conflicts : List Conflict} {index : Nat}
  (known : world.store.hasObject plan.target = true)
  (ran : (mixSource (.uncalled budget) plan index (.object table) held).run world =
    (.ok conflicts, later))

include known ran

private theorem exists_takes (listed : name ∈ world.store.enumerableNames table) :
    ∃ passed left front back,
      Takes budget plan table name held passed left conflicts world front back later := by
  rcases List.append_of_mem listed with ⟨before, after, split⟩
  have distinct := world.store.nodup_enumerableNames table
  rw [split, List.nodup_middle, List.nodup_cons, List.mem_append, not_or] at distinct
  rw [mixSource, Action.run_getStore_bind, split, List.foldlM_append] at ran
  rcases succeeded_of_bind ran with ⟨passed, front, ranBefore, ran⟩
  rw [List.foldlM_cons] at ran
  rcases succeeded_of_bind ran with ⟨left, back, ranTurn, ranAfter⟩
  rcases gains_of_others distinct.1.1 known ranBefore with ⟨gains, pending⟩
  have frontKnown := (gains.extends_.object _ known).1
  have turn := (respects_uncalled budget plan name).mixMember table passed front
  rw [ranTurn] at turn
  have backKnown := ((turn frontKnown).extends_.object _ frontKnown).1
  rcases gains_of_others distinct.1.2 backKnown ranAfter with ⟨rest, answered⟩
  have comes : Comes (.ofBudget budget) plan table held world name passed front :=
    ⟨before, after, split, Action.UpheldBy.foldlM (fun held other =>
      upheld_mixMember (Meaning.upheldBy_uncalled budget) plan table other held) before held
        world passed front ranBefore⟩
  exact ⟨passed, left, front, back,
    { comes := comes
      gains := gains
      pending := pending
      ran := ranTurn
      stays := rest.others name fun differs => differs rfl
      answered := answered }⟩

theorem decides_value {descriptor : Descriptor} {value : Value}
    (owned : world.store.ownDescriptor? table name = some descriptor)
    (enumerable : descriptor.enumerable = true) (valued : descriptor.value? = some value)
    (copied : world.store.Copied value) :
    (∀ conflict ∈ conflicts, conflict.member ≠ name) ∧
      later.store.dataValue? plan.target name = some value := by
  have there := Store.hasObject_of_descriptor? (Store.descriptor?_of_own owned)
  rcases exists_takes known ran (Store.mem_enumerableNames_of_own owned enumerable) with
    ⟨passed, left, front, back, takes⟩
  have ownedThen := (takes.gains.ownDescriptor?_eq there fun differs => differs rfl).trans owned
  rcases settles_of_value (takes.gains.extends_.object _ known).1 ownedThen valued
    (copied.extends takes.gains.extends_) takes.ran with ⟨rfl, stored, own, same⟩
  refine ⟨fun conflict member about => ?_, ?_⟩
  · exact not_mem_settleConflict about ((takes.answered conflict about).mp member)
  · rw [Store.dataValue?, Store.descriptor?_of_own (takes.stays.trans own)]
    exact same

variable (rooted : world.store.Rooted)

include rooted

theorem decides_alias {descriptor : Descriptor} {method : ProcedureId}
    {source : AliasSource} {member : Option String} {captured : Option Descriptor}
    (resolved : world.store.descriptor? table name = some descriptor)
    (enumerable : descriptor.enumerable = true) (holds : descriptor.method? = some method)
    (hooked : (world.store.procedure method).hook = some (.aliased source member captured)) :
    (∀ conflict ∈ conflicts, conflict.member ≠ name) ∧
      ∃ passed front found, Comes (.ofBudget budget) plan table held world name passed front ∧
        Store.ChangesOnly plan.target world.store front.store ∧
        front.store.aliased? source member captured plan.target name = some found ∧
        later.store.ownDescriptor? plan.target name = some found := by
  rcases exists_takes known ran (Store.mem_enumerableNames_iff.mpr ⟨_, resolved, enumerable⟩) with
    ⟨passed, left, front, back, takes⟩
  have resolvedThen := takes.descriptor?_eq rooted resolved
  have hookedThen := (takes.gains.extends_.hook (Store.hasProcedure_of_isDecorator (by
    rw [Store.isDecorator, hooked]
    rfl))).trans hooked
  rcases settles_of_alias (takes.gains.extends_.object _ known).1 resolvedThen holds hookedThen
    takes.ran with ⟨rfl, found, finds, own⟩
  exact ⟨fun conflict among about =>
      not_mem_settleConflict about ((takes.answered conflict about).mp among),
    passed, front, found, takes.comes, takes.gains.toChangesOnly, finds, takes.stays.trans own⟩

theorem decides_requirement {descriptor : Descriptor} {method : ProcedureId}
    (owned : Owned plan world held)
    (resolved : world.store.descriptor? table name = some descriptor)
    (holds : descriptor.method? = some method)
    (there : world.store.hasProcedure method = true)
    (unhooked : (world.store.procedure method).hook = none)
    (required : world.store.isRequired method = true) {conflict : Conflict}
    (pending : conflict ∈ held) (about : conflict.member = name) : conflict ∈ conflicts := by
  by_cases listed : name ∈ world.store.enumerableNames table
  · rcases exists_takes known ran listed with ⟨passed, left, front, back, takes⟩
    have owns := takes.gains.kept _ (owned.hasOwn conflict pending)
    rw [about, Store.hasOwn_eq_isSome, Option.isSome_iff_exists] at owns
    rcases owns with ⟨existing, own⟩
    rcases Option.map_eq_some_iff.mp (takes.descriptor?_eq rooted resolved) with
      ⟨⟨owner, shown⟩, found, rfl⟩
    have skipped := takes.ran
    rw [run_mixMember_of_unhooked _ plan passed found holds
      ((takes.gains.extends_.hook there).trans unhooked),
      takes.gains.extends_.isRequired there, required, Store.has_of_own own] at skipped
    cases skipped
    exact (takes.answered conflict about).mpr ((takes.pending conflict about).mpr pending)
  · rw [mixSource, Action.run_getStore_bind] at ran
    exact ((gains_of_others listed known ran).2 conflict about).mpr pending

end Visit

/-! ### The last table -/

/-- What becomes of the members of a bare table that is merged last, into `turn` with the
conflicts `held`, in a merge that began in `start` and ends in `later`. -/
structure Decides (meaning : Meaning σ) (plan : Plan) (table : ObjectId) (held : List Conflict)
    (start turn later : World σ) (conflicts : List Conflict) : Prop where
  /-- A value that the table owns is what the destination resolves. -/
  values : ∀ name descriptor value, turn.store.ownDescriptor? table name = some descriptor →
    descriptor.enumerable = true → descriptor.value? = some value → turn.store.Copied value →
      (∀ conflict ∈ conflicts, conflict.member ≠ name) ∧
        later.store.dataValue? plan.target name = some value
  /-- What an alias finds when it has its turn is what the destination owns. A trait offers what it
  has offered from the start, unless it is the destination or delegates to it. -/
  aliases : ∀ name descriptor method source member captured,
    turn.store.descriptor? table name = some descriptor → descriptor.enumerable = true →
    descriptor.method? = some method →
    (turn.store.procedure method).hook = some (.aliased source member captured) →
      (∀ conflict ∈ conflicts, conflict.member ≠ name) ∧
        ∃ passed front found, Comes meaning plan table held turn name passed front ∧
          front.store.aliased? source member captured plan.target name = some found ∧
          later.store.ownDescriptor? plan.target name = some found ∧
          ∀ trait origin, source = .trait trait → start.store.Fronts trait origin →
            start.store.hasObject origin = true → plan.target ∉ start.store.ancestry origin →
              captured.or (start.store.descriptor? origin (member.getD name)) = some found
  /-- Under a requirement the conflict that is held back remains. -/
  requirements : ∀ name descriptor method conflict,
    turn.store.descriptor? table name = some descriptor → descriptor.method? = some method →
    turn.store.hasProcedure method = true → (turn.store.procedure method).hook = none →
    turn.store.isRequired method = true →
      conflict ∈ held → conflict.member = name → conflict ∈ conflicts

/-- The bare table that is merged last decides. If no user code is called and the merge succeeds,
no conflict is reported under the names of the values and the aliases that the table brings,
whatever was merged before, and the destination resolves these names to what the table gives. -/
theorem final_table_decides {target : ObjectId} {sources : List Value} {definer : Definer}
    {conflicts : List Conflict} (rooted : world.store.Rooted)
    (known : world.store.hasObject target = true) (given : world.store.hasObject table = true)
    (uncalled : Uncalled (fun meaning => mixin meaning target (sources ++ [.object table]) definer)
      budget world)
    (ran : (mixin (.ofBudget budget) target (sources ++ [.object table]) definer).run world =
      (.ok conflicts, later)) :
    ∃ held turn,
      (mixSources (.ofBudget budget) ⟨target, definer, sources ++ [.object table]⟩ 0 sources
        []).run world = (.ok held, turn) ∧
      (table ≠ target → turn.store.members table = world.store.members table) ∧
      Decides (.ofBudget budget) ⟨target, definer, sources ++ [.object table]⟩ table held world turn
        later conflicts := by
  let plan : Plan := ⟨target, definer, sources ++ [.object table]⟩
  have quiet : (mixSources (.uncalled budget) plan 0 (sources ++ [.object table]) []).run world =
      (.ok conflicts, later) := Eq.trans uncalled ran
  rw [mixSources_append] at quiet
  rcases succeeded_of_bind quiet with ⟨held, turn, ranSources, ranTable⟩
  rw [mixSources] at ranTable
  rcases succeeded_of_bind ranTable with ⟨_, _, ranLast, done⟩
  cases done
  have owned : Owned plan turn held :=
    Owned.of_mixSources ⟨known, List.forall_mem_nil _⟩ ranSources
  have gains : Store.Gains target (fun _ => True) world.store turn.store := by
    have gained := gaining_mixSources (Meaning.installsGain_uncalled budget) plan 0 sources []
      world known
    rw [ranSources] at gained
    exact gained
  have rootedTurn := gains.rooted rooted
  refine ⟨held, turn, ?_, fun different => gains.members table given different, ?_⟩
  · exact upheld_mixSources (Meaning.upheldBy_uncalled budget) plan 0 sources [] _ _ _ ranSources
  · exact
      { values := fun name descriptor value own enumerable valued copied =>
          decides_value owned.known ranLast own enumerable valued copied
        aliases := fun name descriptor method source member captured resolved enumerable holds
            hooked => by
          rcases decides_alias owned.known ranLast rootedTurn resolved enumerable holds hooked with
            ⟨silent, passed, front, found, comes, changes, finds, own⟩
          refine ⟨silent, passed, front, found, comes, finds, own, ?_⟩
          rintro trait origin rfl fronts there apart
          rw [← finds]
          exact (Store.aliased?_of_apart (gains.toChangesOnly.trans changes) rooted fronts there
            apart member captured name).symm
        requirements := fun name descriptor method conflict resolved holds there unhooked required
            pending about =>
          decides_requirement owned.known ranLast rootedTurn owned resolved holds there unhooked
            required pending about }

/-- Two constructors with rival methods under three names, and a bare table that has a method of
its own under one of them, a copy of another object's method under the second and a requirement
under the third. -/
def rivals : World Unit where
  store := {
    objects := #[{},
      { members := .ofEntries [("n", .ofValue (.procedure ⟨1⟩)), ("k", .ofValue (.procedure ⟨1⟩)),
          ("r", .ofValue (.procedure ⟨1⟩))] },
      { members := .ofEntries [("n", .ofValue (.procedure ⟨2⟩)), ("k", .ofValue (.procedure ⟨2⟩)),
          ("r", .ofValue (.procedure ⟨2⟩))] },
      { members := .ofEntries [("k", ⟨.data (.procedure ⟨1⟩) false, true, false⟩)] },
      { members := .ofEntries [("n", .ofValue (.procedure ⟨3⟩)), ("k", .ofValue (.procedure ⟨6⟩)),
          ("r", .ofValue (.procedure ⟨0⟩))] }]
    procedures := #[
      { body := .required }, { body := .code ⟨0⟩ }, { body := .code ⟨0⟩ }, { body := .code ⟨0⟩ },
      { body := .code ⟨0⟩, table := some ⟨1⟩ }, { body := .code ⟨0⟩, table := some ⟨2⟩ },
      { body := .unapplied none, hook := some (.aliased (.trait (.object ⟨3⟩)) none none) }] }
  state := ()

theorem final_table_decides_of_rivals :
    ∃ later, (mixin (.ofBudget 1) ⟨0⟩ [.procedure ⟨4⟩, .procedure ⟨5⟩, .object ⟨4⟩] .raw).run
        rivals = (.ok [⟨"r", ⟨1⟩, ⟨2⟩⟩], later) ∧
      later.store.dataValue? ⟨0⟩ "n" = some (.procedure ⟨3⟩) ∧
      later.store.ownDescriptor? ⟨0⟩ "k" =
        some ⟨.data (.procedure ⟨1⟩) false, true, false⟩ := by
  have quiet : (mixin (.uncalled 1) ⟨0⟩ [.procedure ⟨4⟩, .procedure ⟨5⟩, .object ⟨4⟩] .raw).run
      rivals = (.ok [⟨"r", ⟨1⟩, ⟨2⟩⟩], _) := Action.run_eq_of_toOption _ _ _ (by decide +kernel)
  have uncalled : Uncalled (fun meaning =>
      mixin meaning ⟨0⟩ ([.procedure ⟨4⟩, .procedure ⟨5⟩] ++ [.object ⟨4⟩]) .raw) 1 rivals :=
    uncalled_of_ok quiet
  have ran : (mixin (.ofBudget 1) ⟨0⟩ ([.procedure ⟨4⟩, .procedure ⟨5⟩] ++ [.object ⟨4⟩]) .raw).run
      rivals = (.ok [⟨"r", ⟨1⟩, ⟨2⟩⟩], _) := Eq.trans (Eq.symm uncalled) quiet
  rcases final_table_decides (Store.rooted_iff.mpr (by decide)) (by decide) (by decide) uncalled
    ran with ⟨held, turn, ranSources, members, decides⟩
  have own (name : String) :
      turn.store.ownDescriptor? ⟨4⟩ name = rivals.store.ownDescriptor? ⟨4⟩ name := by
    rw [Store.ownDescriptor?, Store.ownDescriptor?, members (by decide)]
  have reached : turn = _ := congrArg Prod.snd ranSources.symm
  have copied : turn.store.Copied (.procedure ⟨3⟩) := by
    rintro _ ⟨rfl⟩
    rw [reached]
    exact ⟨Option.isNone_iff_eq_none.mp (by decide +kernel), by decide +kernel⟩
  have hooked : (turn.store.procedure ⟨6⟩).hook =
      some (.aliased (.trait (.object ⟨3⟩)) none none) := by
    rw [reached]
    rfl
  rcases decides.aliases "k" _ _ _ _ _ (Store.descriptor?_of_own ((own "k").trans rfl)) rfl rfl
    hooked with ⟨_, _, _, found, _, _, owned, offers⟩
  cases offers (.object ⟨3⟩) ⟨3⟩ rfl (.table (by decide)) (by decide) (by decide)
  exact ⟨_, ran, (decides.values "n" _ _ ((own "n").trans rfl) rfl rfl copied).2, owned⟩

end Merge

end TraitComposition
