import TraitComposition.Proofs.Machine.Restraint
import TraitComposition.Proofs.Merge.OneType

/-!
Where conflicts come from. A merge holds a conflict back only for a method that the table
of a procedure owns, only against a different method, and only if neither is a requirement:
an inherited method is always found in the tables of its own source, and then the
destination is kept. As long as user code changes no object but the destination, all this
is still so when the merge is over.
-/
namespace TraitComposition

namespace Store

/-- Whether a conflict is one of two methods, of which the later one is owned by the table
of a source. -/
structure Genuine (store : Store) (target : ObjectId) (sources : List Value)
    (conflict : Conflict) : Prop where
  different : conflict.existing ≠ conflict.incoming
  existing : store.isRequired conflict.existing = false
  incoming : store.isRequired conflict.incoming = false
  owned : ∃ procedure table, .procedure procedure ∈ sources ∧
    store.Fronts (.procedure procedure) table ∧ table ≠ target ∧
    (store.ownDescriptor? table conflict.member).bind Descriptor.value? =
      some (.procedure conflict.incoming)

variable {target : ObjectId} {sources : List Value} {before after : Store}

private theorem Genuine.later {conflict : Conflict}
    (genuine : before.Genuine target sources conflict)
    (changes : ChangesWithin (.object target) before after) :
    after.Genuine target sources conflict := by
  have stays {procedure : ProcedureId} (implemented : before.isRequired procedure = false) :
      after.isRequired procedure = false :=
    (changes.extends_.isRequired (hasProcedure_of_implemented implemented)).trans implemented
  rcases genuine.owned with ⟨procedure, table, member, fronts, different, owned⟩
  refine ⟨genuine.different, stays genuine.existing, stays genuine.incoming, procedure, table,
    member, fronts.extends changes.extends_, different, ?_⟩
  rcases Option.bind_eq_some_iff.mp owned with ⟨descriptor, own, _⟩
  rw [changes.own table _ (hasObject_of_descriptor? (descriptor?_of_own own)) different]
  exact owned

structure Sound (store : Store) (target : ObjectId) (sources : List Value)
    (held : List Conflict) : Prop where
  unique : (held.map Conflict.member).Nodup
  genuine : ∀ conflict ∈ held, store.Genuine target sources conflict

private theorem Sound.later {held : List Conflict} (sound : before.Sound target sources held)
    (changes : ChangesWithin (.object target) before after) :
    after.Sound target sources held where
  unique := sound.unique
  genuine conflict member := (sound.genuine conflict member).later changes

end Store

/-! ### Holding conflicts back -/

private theorem map_member_holdConflict (conflict : Conflict) :
    ∀ held : List Conflict,
      (holdConflict conflict held).map Conflict.member =
        FirstSeen.insert (held.map Conflict.member) conflict.member
  | [] => rfl
  | other :: held => by
      by_cases same : other.member = conflict.member
      · rw [holdConflict, if_pos same, FirstSeen.insert, if_pos (by simp [same])]
        simp [same]
      · rw [holdConflict, if_neg same, List.map_cons,
          map_member_holdConflict conflict held]
        simp only [FirstSeen.insert, List.map_cons, List.mem_cons, Ne.symm same, false_or]
        split <;> rfl

theorem mem_of_mem_holdConflict {conflict other : Conflict} :
    ∀ {held : List Conflict}, other ∈ holdConflict conflict held →
      other = conflict ∨ other ∈ held
  | [], member => .inl (List.mem_singleton.mp member)
  | first :: held, member => by
      rw [holdConflict] at member
      split at member
      · rcases List.mem_cons.mp member with rfl | member
        · exact .inl rfl
        · exact .inr (List.mem_cons_of_mem _ member)
      · rcases List.mem_cons.mp member with rfl | member
        · exact .inr (List.mem_cons_self ..)
        · exact (mem_of_mem_holdConflict member).imp_right (List.mem_cons_of_mem _)

private theorem nodup_holdConflict (conflict : Conflict) {held : List Conflict}
    (unique : (held.map Conflict.member).Nodup) :
    ((holdConflict conflict held).map Conflict.member).Nodup := by
  rw [map_member_holdConflict]
  exact FirstSeen.nodup_insert unique

private theorem nodup_settleConflict (name : String) {held : List Conflict}
    (unique : (held.map Conflict.member).Nodup) :
    ((settleConflict name held).map Conflict.member).Nodup :=
  unique.sublist (List.filter_sublist.map _)

namespace Store.Sound

variable {store : Store} {target : ObjectId} {sources : List Value} {held : List Conflict}
  (sound : store.Sound target sources held)

include sound

private theorem holdConflict {conflict : Conflict}
    (genuine : store.Genuine target sources conflict) :
    store.Sound target sources (holdConflict conflict held) where
  unique := nodup_holdConflict conflict sound.unique
  genuine other member := by
    rcases mem_of_mem_holdConflict member with rfl | member
    · exact genuine
    · exact sound.genuine other member

private theorem settleConflict (name : String) :
    store.Sound target sources (settleConflict name held) where
  unique := nodup_settleConflict name sound.unique
  genuine conflict member := sound.genuine conflict (List.mem_filter.mp member).1

end Store.Sound

/-! ### Weighing -/

theorem Rivalry.of_resolve_eq_conflict {rivalry : Rivalry} {store : Store} {target : ObjectId}
    {earlier throughThis : List ObjectId} {existing : ProcedureId}
    (reported : rivalry.resolve store target earlier throughThis = .conflict existing) :
    existing = rivalry.existing ∧ store.isRequired rivalry.existing = false ∧
      store.isRequired rivalry.incoming = false ∧
      (rivalry.own = true ∨
        store.chainHolds throughThis rivalry.name (.procedure rivalry.incoming) = false) := by
  unfold resolve at reported
  split at reported
  · cases reported
  · next incoming =>
    split at reported
    · cases reported
    · next existing =>
      rw [Bool.not_eq_true] at incoming existing
      split at reported
      · next own =>
        split at reported
        · cases reported
        · split at reported
          · cases reported
          · cases reported
            exact ⟨rfl, existing, incoming, .inl own⟩
      · split at reported
        · cases reported
        · next missing =>
          rw [Bool.not_eq_true] at missing
          split at reported
          · cases reported
          · cases reported
            exact ⟨rfl, existing, incoming, .inr missing⟩

/-! ### Members -/

namespace Merge

open Store (ChangesWithin)
open TraitComposition.Action (Follows succeeded_of_bind)

structure Progress {σ : Type} (plan : Plan) (world : World σ) (held : List Conflict) : Prop where
  rooted : world.store.Rooted
  present : ∀ source ∈ plan.sources, world.store.Present source
  sound : world.store.Sound plan.target plan.sources held

private theorem Progress.later {σ : Type} {plan : Plan} {world later : World σ}
    {held : List Conflict} (progress : Progress plan world held)
    (changes : ChangesWithin (.object plan.target) world.store later.store) :
    Progress plan later held where
  rooted := changes.rooted progress.rooted
  present source member := (progress.present source member).extends changes.extends_
  sound := progress.sound.later changes

variable {σ : Type} {meaning : Meaning σ} {plan : Plan} (sparing : meaning.Sparing plan.target)
  {world later : World σ} {held left : List Conflict} {name : String} {table : ObjectId}

include sparing in
private theorem respects_within (name : String) :
    Respects (Passage.within σ (.object plan.target)) meaning plan name where
  asks := asks_within _
  assign := Member.follows_assign (Passage.within_storeMember rfl) sparing.call
  define := Definer.follows_define (Passage.within_storeMember rfl) sparing.call
    (fun _ => Action.within_edit fun store => .of_encode store _) plan.definer
  install hook := (sparing.install hook plan.target name).within_mono
    fun _ _ either => either.elim id id

theorem left_of_mixMember
    (ran : (mixMember meaning plan table name held).run world = (.ok left, later)) :
    left = held ∨ left = settleConflict name held := by
  rw [mixMember, Action.run_getStore_bind] at ran
  split at ran
  · cases ran
    exact .inl rfl
  · next owner descriptor found =>
    have settled : (if owner = table then settleConflict name held else held) = held ∨
        (if owner = table then settleConflict name held else held) = settleConflict name held := by
      split
      · exact .inr rfl
      · exact .inl rfl
    dsimp only at ran
    split at ran
    · rcases succeeded_of_bind ran with ⟨_, _, _, ran⟩
      cases ran
      exact settled
    · split at ran
      · rcases succeeded_of_bind ran with ⟨_, _, _, ran⟩
        cases ran
        exact .inr rfl
      · split at ran
        · cases ran
          exact .inl rfl
        · rcases succeeded_of_bind ran with ⟨_, _, _, ran⟩
          cases ran
          exact settled

theorem genuine_of_conflict {index : Nat} {procedure incoming existing reported : ProcedureId}
    {owner : ObjectId} {descriptor : Descriptor} {asked : World σ}
    {ownChain earlier throughThis : List ObjectId} (rooted : world.store.Rooted)
    (known : world.store.hasObject table = true)
    (listed : .procedure procedure ∈ plan.sources.take (index + 1))
    (fronts : world.store.Fronts (.procedure procedure) table)
    (found : world.store.lookup table name = some (owner, descriptor))
    (method : descriptor.method? = some incoming)
    (resolved : world.store.dataValue? plan.target name = some (.procedure existing))
    (different : existing ≠ incoming)
    (changes : ChangesWithin .nowhere world.store asked.store)
    (contributes : table ∈ throughThis)
    (conflict : Rivalry.resolve ⟨name, incoming, existing, owner == table, ownChain⟩ asked.store
      plan.target earlier throughThis = .conflict reported) :
    asked.store.Genuine plan.target plan.sources ⟨name, reported, incoming⟩ := by
  rcases Rivalry.of_resolve_eq_conflict conflict with ⟨rfl, implementing, implemented, chain⟩
  have valued := Descriptor.value?_of_method? method
  have own : owner = table := by
    rcases chain with own | missing
    · exact beq_iff_eq.mp own
    -- An inherited method is in the tables of its own source.
    · have holds : asked.store.dataValue? table name = some (.procedure incoming) := by
        rw [changes.dataValue?_eq rooted known fun _ _ => id, Store.dataValue?, Store.descriptor?,
          found, Option.map_some, Option.bind_some, valued]
      have entered := Store.chainHolds_iff.mpr ⟨table, contributes, holds⟩
      rw [missing] at entered
      cases entered
  subst owner
  have owned := (Store.ownDescriptor?_of_lookup found).2
  refine ⟨different, implementing, implemented, procedure, table,
    List.mem_of_mem_take listed, fronts.extends changes.extends_, ?_, ?_⟩
  · rintro rfl
    rw [Store.dataValue?, Store.descriptor?_of_own owned, Option.bind_some, valued] at resolved
    cases resolved
    exact different rfl
  · rw [changes.own table name known id, owned, Option.bind_some, valued]

private theorem Respects.carryOut {passage : Passage σ}
    (respects : Respects passage meaning plan name)
    (descriptor : Descriptor) (incoming : ProcedureId) (held : List Conflict)
    (resolution : Resolution) :
    Follows passage (carryOut meaning plan name descriptor incoming held resolution) := by
  cases resolution with
  | incoming | conflict => exact Follows.bind (respects.put descriptor) fun _ => Follows.pure _
  | keepDestination =>
      apply Follows.bind Follows.getStore
      intro store
      split
      · exact Follows.bind (respects.put _) fun _ => Follows.pure _
      · exact Follows.pure _

theorem left_of_carryOut {descriptor : Descriptor} {incoming : ProcedureId}
    {resolution : Resolution}
    (ran : (carryOut meaning plan name descriptor incoming held resolution).run world =
      (.ok left, later)) :
    left = held ∨ ∃ existing, resolution = .conflict existing ∧
      left = holdConflict ⟨name, existing, incoming⟩ held := by
  cases resolution with
  | incoming =>
      rcases succeeded_of_bind ran with ⟨_, _, _, ran⟩
      cases ran
      exact .inl rfl
  | conflict existing =>
      rcases succeeded_of_bind ran with ⟨_, _, _, ran⟩
      cases ran
      exact .inr ⟨existing, rfl, rfl⟩
  | keepDestination =>
      rw [carryOut, Action.run_getStore_bind] at ran
      split at ran
      · rcases succeeded_of_bind ran with ⟨_, _, _, ran⟩
        cases ran
        exact .inl rfl
      · cases ran
        exact .inl rfl

/-- A name in the table of a procedure leaves what was held back, or settles its own conflict,
unless it is weighed. -/
theorem left_or_weighed_of_mixMethod {index : Nat} {ownChain : List ObjectId}
    (ran : (mixMethod meaning plan index table ownChain name held).run world = (.ok left, later)) :
    left = held ∨ left = settleConflict name held ∨
      ∃ owner descriptor incoming, world.store.lookup table name = some (owner, descriptor) ∧
        descriptor.method? = some incoming ∧
        (weigh plan index name (owner == table) incoming ownChain
            (world.store.dataValue? plan.target name) >>=
          carryOut meaning plan name descriptor incoming held).run world = (.ok left, later) := by
  cases found : world.store.lookup table name with
  | none =>
      rw [mixMethod, Action.run_getStore_bind, found] at ran
      cases ran
      exact .inl rfl
  | some level =>
      rcases level with ⟨owner, descriptor⟩
      cases method : descriptor.method? with
      | none =>
          rw [run_mixMethod_of_value meaning plan index ownChain held found method] at ran
          rcases succeeded_of_bind ran with ⟨_, _, _, ran⟩
          cases ran
          exact .inl rfl
      | some incoming =>
          cases runs : installs world.store table ownChain name
              (world.store.dataValue? plan.target name) with
          | true =>
              rcases exists_of_installs runs with
                ⟨owner, descriptor, incoming, hook, found, method, hooked, _⟩
              rw [run_mixMethod_of_installs meaning plan index ownChain held found method hooked
                runs] at ran
              rcases succeeded_of_bind ran with ⟨_, _, _, ran⟩
              cases ran
              exact .inr (.inl rfl)
          | false =>
              rw [run_mixMethod_weighs meaning plan index ownChain held found method runs] at ran
              exact .inr (.inr ⟨owner, descriptor, incoming, rfl, method, ran⟩)

/-! Whatever user code does meanwhile, what is held back is about different members. -/

private theorem nodup_of_mixMethod {index : Nat} {ownChain : List ObjectId}
    (unique : (held.map Conflict.member).Nodup)
    (ran : (mixMethod meaning plan index table ownChain name held).run world = (.ok left, later)) :
    (left.map Conflict.member).Nodup := by
  rcases left_or_weighed_of_mixMethod ran with
    rfl | rfl | ⟨owner, descriptor, incoming, found, method, ran⟩
  · exact unique
  · exact nodup_settleConflict name unique
  · rcases succeeded_of_bind ran with ⟨resolution, _, _, ran⟩
    rcases left_of_carryOut ran with rfl | ⟨existing, _, rfl⟩
    · exact unique
    · exact nodup_holdConflict _ unique

private theorem nodup_of_mixSource {index : Nat} {source : Value}
    (unique : (held.map Conflict.member).Nodup)
    (ran : (mixSource meaning plan index source held).run world = (.ok left, later)) :
    (left.map Conflict.member).Nodup := by
  cases source with
  | object table =>
      refine Action.foldlM_keeps (fun _ held => (held.map Conflict.member).Nodup)
        (fun name unique ran => ?_) unique ran
      rcases left_of_mixMember ran with rfl | rfl
      · exact unique
      · exact nodup_settleConflict name unique
  | procedure procedure =>
      rw [mixSource, Action.run_edit_bind, Action.run_edit_bind, Action.run_getStore_bind] at ran
      exact Action.foldlM_keeps (fun _ held => (held.map Conflict.member).Nodup)
        (fun _ unique ran => nodup_of_mixMethod unique ran) unique ran
  | _ => cases ran

theorem nodup_of_mixSources {index : Nat} {sources : List Value}
    (unique : (held.map Conflict.member).Nodup)
    (ran : (mixSources meaning plan index sources held).run world = (.ok left, later)) :
    (left.map Conflict.member).Nodup := by
  induction sources generalizing index world held with
  | nil =>
      cases ran
      exact unique
  | cons source sources induction =>
      rcases succeeded_of_bind ran with ⟨_, _, ranFirst, ranRest⟩
      exact induction (nodup_of_mixSource unique ranFirst) ranRest

include sparing

section Method

variable {index : Nat} {ownChain : List ObjectId} {procedure : ProcedureId}
  (rooted : world.store.Rooted) (listed : .procedure procedure ∈ plan.sources.take (index + 1))
  (fronts : world.store.Fronts (.procedure procedure) table)

include rooted listed fronts

theorem left_of_weigh {owner : ObjectId} {descriptor : Descriptor} {incoming : ProcedureId}
    (found : world.store.lookup table name = some (owner, descriptor))
    (method : descriptor.method? = some incoming)
    (ran : (weigh plan index name (owner == table) incoming ownChain
        (world.store.dataValue? plan.target name) >>=
      carryOut meaning plan name descriptor incoming held).run world = (.ok left, later)) :
    left = held ∨ ∃ conflict, left = holdConflict conflict held ∧
      later.store.Genuine plan.target plan.sources conflict := by
  rcases rival_or_alone (world.store.dataValue? plan.target name) incoming with
    ⟨existing, different, resolved⟩ | alone
  · rcases exists_run_weigh plan index name (owner == table) ownChain different world
      with ⟨asked, earlier, throughThis, weighed, changes, contributes⟩
    rw [resolved, Action.run_bind_of_ok _ weighed] at ran
    rcases left_of_carryOut ran with kept | ⟨reported, conflict, added⟩
    · exact .inl kept
    · have known := Store.hasObject_of_descriptor? (congrArg (Option.map Prod.snd) found)
      have genuine := genuine_of_conflict rooted known listed fronts found method resolved
        different changes (contributes _ listed table fronts) conflict
      have changesThen := (respects_within sparing name).carryOut descriptor incoming held
        (.conflict reported) asked
      rw [← conflict, ran] at changesThen
      exact .inr ⟨_, added, genuine.later changesThen⟩
  · rw [weigh_of_no_rival plan _ _ _ _ _ alone, Action.run_pure_bind] at ran
    rcases left_of_carryOut ran with kept | ⟨_, conflict, _⟩
    · exact .inl kept
    · cases conflict

theorem left_of_mixMethod
    (ran : (mixMethod meaning plan index table ownChain name held).run world = (.ok left, later)) :
    left = held ∨ left = settleConflict name held ∨
      ∃ conflict, left = holdConflict conflict held ∧
        later.store.Genuine plan.target plan.sources conflict := by
  rcases left_or_weighed_of_mixMethod ran with
    kept | settled | ⟨owner, descriptor, incoming, found, method, ran⟩
  · exact .inl kept
  · exact .inr (.inl settled)
  · exact (left_of_weigh sparing rooted listed fronts found method ran).imp_right .inr

end Method

/-! ### Sources -/

private theorem progress_of_names {index : Nat} {ownChain : List ObjectId} {procedure : ProcedureId}
    (listed : .procedure procedure ∈ plan.sources.take (index + 1)) {names : List String}
    (progress : Progress plan world held)
    (fronts : world.store.Fronts (.procedure procedure) table)
    (ran : (names.foldlM (fun held name => mixMethod meaning plan index table ownChain name held)
      held).run world = (.ok left, later)) :
    Progress plan later left := by
  refine (Action.foldlM_keeps (fun world held => Progress plan world held ∧
    world.store.Fronts (.procedure procedure) table)
    (fun {world later held left} name holds ran => ?_) ⟨progress, fronts⟩ ran).1
  rcases holds with ⟨progress, fronts⟩
  have changes := (respects_within sparing name).mixMethod index table ownChain held world
  rw [ran] at changes
  have kept := progress.later changes
  refine ⟨?_, fronts.extends changes.extends_⟩
  rcases left_of_mixMethod sparing progress.rooted listed fronts ran with
    rfl | rfl | ⟨conflict, rfl, genuine⟩
  · exact kept
  · exact { kept with sound := kept.sound.settleConflict name }
  · exact { kept with sound := kept.sound.holdConflict genuine }

private theorem progress_of_mixSource {index : Nat} {source : Value}
    (listed : source ∈ plan.sources.take (index + 1)) (progress : Progress plan world held)
    (ran : (mixSource meaning plan index source held).run world = (.ok left, later)) :
    Progress plan later left := by
  cases source with
  | object table =>
      refine Action.foldlM_keeps (Progress plan)
        (fun {world later held left} name progress ran => ?_) progress ran
      have changes := (respects_within sparing name).mixMember table held world
      rw [ran] at changes
      have kept := progress.later changes
      rcases left_of_mixMember ran with rfl | rfl
      · exact kept
      · exact { kept with sound := kept.sound.settleConflict name }
  | procedure procedure =>
      have asks : Asks (Passage.within σ (.object plan.target)) := asks_within _
      have tabled := asks procedure world
      have asked := asks.prototypes [.procedure procedure]
        { world with store := (world.store.prototypeOf procedure).2 }
      have fronts := (progress.present _ (List.mem_of_mem_take listed)).fronts
      rw [mixSource, Action.run_edit_bind, Action.run_edit_bind, Action.run_getStore_bind] at ran
      exact progress_of_names sparing listed ((progress.later tabled).later asked)
        (fronts.extends asked.extends_) ran
  | _ => cases ran

private theorem progress_of_mixSources {index : Nat} {sources : List Value}
    (rest : plan.sources.drop index = sources) (progress : Progress plan world held)
    (ran : (mixSources meaning plan index sources held).run world = (.ok left, later)) :
    Progress plan later left := by
  induction sources generalizing index world held with
  | nil =>
      cases ran
      exact progress
  | cons source sources induction =>
      rcases succeeded_of_bind ran with ⟨between, mixed, ranFirst, ranRest⟩
      have listed : source ∈ plan.sources.take (index + 1) := by
        have here : plan.sources[index]? = some source := by
          rw [← List.head?_drop, rest, List.head?_cons]
        simp [List.take_add_one, here]
      have dropped : plan.sources.drop (index + 1) = sources := by
        rw [← List.tail_drop, rest, List.tail_cons]
      exact induction dropped (progress_of_mixSource sparing listed progress ranFirst) ranRest

end Merge

/-! ### The whole merge -/

/-- The conflicts that a merge answers with are about different members, and each of them is
between two different methods, neither of them a requirement, of which the table of a
procedure or type among the sources owns the later one; provided that the merge comes out
the same when whatever user code does to objects other than the destination is undone. -/
theorem conflicts_genuine {σ : Type} {target : ObjectId} {sources : List Value}
    {definer : Definer} {budget : Nat} {world later : World σ} {conflicts : List Conflict}
    (rooted : world.store.Rooted) (present : ∀ source ∈ sources, world.store.Present source)
    (undisturbed : Undisturbed (fun meaning => mixin meaning target sources definer) target budget
      world)
    (ran : (mixin (.ofBudget budget) target sources definer).run world = (.ok conflicts, later)) :
    (conflicts.map Conflict.member).Nodup ∧
      ∀ conflict ∈ conflicts, later.store.Genuine target sources conflict := by
  have sparing := Meaning.sparing_restrained (σ := σ) target budget
  have start : Merge.Progress ⟨target, definer, sources⟩ world [] :=
    ⟨rooted, present, List.nodup_nil, fun _ member => nomatch member⟩
  have progress := Merge.progress_of_mixSources sparing rfl start (undisturbed.trans ran)
  exact ⟨progress.sound.unique, progress.sound.genuine⟩

def clashing : World Unit where
  store := {
    objects := #[
      {}, { members := MemberTable.empty.insert "n" (.ofValue (.procedure ⟨2⟩)) },
      { members := MemberTable.empty.insert "n" (.ofValue (.procedure ⟨1⟩)) }]
    procedures := #[
      { body := .required }, { body := .code ⟨0⟩ }, { body := .code ⟨1⟩ },
      { body := .composite ⟨0⟩ }]
    composites := #[
      { procedure := ⟨3⟩, prototype := ⟨1⟩, bases := ⟨[], [⟨1⟩]⟩, composer := {} }] }
  state := ()

theorem conflict_genuine_of_type :
    ∃ later, (mixin (.ofBudget 1) ⟨0⟩ [.object ⟨2⟩, .procedure ⟨3⟩] .raw).run clashing =
        (.ok [⟨"n", ⟨1⟩, ⟨2⟩⟩], later) ∧
      later.store.Genuine ⟨0⟩ [.object ⟨2⟩, .procedure ⟨3⟩] ⟨"n", ⟨1⟩, ⟨2⟩⟩ := by
  have unasked := Action.run_eq_of_toOption
    (mixin .exhausted ⟨0⟩ [.object ⟨2⟩, .procedure ⟨3⟩] .raw) clashing [⟨"n", ⟨1⟩, ⟨2⟩⟩]
    (by decide +kernel)
  have upheld (meaning : Meaning Unit) :=
    upheld_mixin meaning ⟨0⟩ [.object ⟨2⟩, .procedure ⟨3⟩] .raw
  have ran := upheld (.ofBudget 1) _ _ _ unasked
  have present : ∀ source ∈ [Value.object ⟨2⟩, .procedure ⟨3⟩], clashing.store.Present source := by
    intro source member
    rcases List.mem_cons.mp member with rfl | member
    · exact .table rfl
    · cases List.mem_singleton.mp member
      exact .type ⟨rfl, by decide, by decide⟩
  have genuine := (conflicts_genuine (by decide) present
    (undisturbed_of_upheld upheld unasked ⟨0⟩ 1) ran).2
  exact ⟨_, ran, genuine _ (List.mem_singleton.mpr rfl)⟩

end TraitComposition
