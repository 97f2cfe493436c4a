import TraitComposition.Proofs.Advice.Installing
import TraitComposition.Proofs.Merge.Patches

/-!
Advice on accessors. A patch whose getter and setter are advice is worked out on objects like any
other: each of them is installed on the field of what is patched, so it is stacked on what the
getter or the setter carries already. The object that inherits an accessor comes to own another one.
-/
namespace TraitComposition

variable {σ : Type}

/-! ### What getters and setters carry

A getter or a setter carries a weave as the value of a member does, and none carries the empty
one. Advice on it is a procedure whose installation stacks the weave that it carries itself. -/

namespace Store

def carried (store : Store) (procedure : Option ProcedureId) : Weave :=
  store.weaveOf (procedure.map .procedure)

def Founded (store : Store) (procedure : Option ProcedureId) : Prop :=
  ∀ root, (store.carried procedure).root = some root → store.hasProcedure root = true

structure IsAdvice (store : Store) (procedure : ProcedureId) : Prop where
  hook : (store.procedure procedure).hook = some (.weave (store.carried (some procedure)))
  solid : store.carried (some procedure) ≠ {}
  unique : (store.carried (some procedure)).layers.Nodup
  founded : store.Founded (some procedure)

/-- What a getter or a setter has become, if advice is given on it: where there is none, the former
one, and on nothing the advice alone. -/
structure Stacked (before after : Store) (former given advised : Option ProcedureId) : Prop where
  same : given = none → advised = former
  alone : former = none → after.carried advised = before.carried given
  weave : after.carried advised = before.stackWeaves (before.carried former) (before.carried given)
  founded : after.Founded advised

variable {before middle after : Store} {former given advised : Option ProcedureId}

theorem IsAdvice.of_mark {store : Store} {procedure : ProcedureId} {weave : Weave}
    (hooked : (store.procedure procedure).hook = some (.weave weave))
    (marked : (store.procedure procedure).mark = some (.weave weave)) (solid : weave ≠ {})
    (unique : weave.layers.Nodup)
    (older : ∀ root, weave.root = some root → store.hasProcedure root = true) :
    store.IsAdvice procedure ∧ store.carried (some procedure) = weave := by
  have carries : store.carried (some procedure) = weave := weaveOf_of_mark marked
  refine ⟨⟨?_, ?_, ?_, ?_⟩, carries⟩
  · rw [carries, hooked]
  · rw [carries]
    exact solid
  · rw [carries]
    exact unique
  · rw [Founded, carries]
    exact older

private theorem weaveOf_ofProcedure? (store : Store) (procedure : Option ProcedureId) :
    store.weaveOf (some (.ofProcedure? procedure)) = store.carried procedure := by
  cases procedure <;> rfl

private theorem Founded.hasProcedure {procedure : ProcedureId}
    (founded : before.Founded (some procedure)) :
    before.hasProcedure procedure = true := by
  cases marked : (before.procedure procedure).mark with
  | some mark => exact hasProcedure_of_mark marked
  | none =>
      apply founded procedure
      rw [carried, Option.map_some, weaveOf, marked]
      rfl

theorem Extends.carried_eq (extends_ : before.Extends after) (founded : before.Founded former) :
    after.carried former = before.carried former := by
  cases former with
  | none => rfl
  | some procedure => exact extends_.weaveOf founded.hasProcedure

private theorem Founded.later (founded : before.Founded former) (extends_ : before.Extends after) :
    after.Founded former := by
  intro root carries
  rw [extends_.carried_eq founded] at carries
  exact (extends_.procedure root (founded root carries)).1

private theorem IsAdvice.later {procedure : ProcedureId} (advice : before.IsAdvice procedure)
    (extends_ : before.Extends after) : after.IsAdvice procedure where
  hook := by
    rw [extends_.carried_eq advice.founded, ← advice.hook]
    exact extends_.hook advice.founded.hasProcedure
  solid := by
    rw [extends_.carried_eq advice.founded]
    exact advice.solid
  unique := by
    rw [extends_.carried_eq advice.founded]
    exact advice.unique
  founded := advice.founded.later extends_

theorem Stacked.of_none (extends_ : before.Extends after) (founded : before.Founded former) :
    Stacked before after former none former where
  same _ := rfl
  alone none_ := by
    rw [none_]
    rfl
  weave := (extends_.carried_eq founded).trans stackWeaves_empty.symm
  founded := founded.later extends_

private theorem Stacked.later (stacked : Stacked before middle former given advised)
    (extends_ : middle.Extends after) : Stacked before after former given advised where
  same := stacked.same
  alone none_ := (extends_.carried_eq stacked.founded).trans (stacked.alone none_)
  weave := (extends_.carried_eq stacked.founded).trans stacked.weave
  founded := stacked.founded.later extends_

private theorem Stacked.since (stacked : Stacked middle after former given advised)
    (extends_ : before.Extends middle) (founded : before.Founded former)
    (foundedToo : before.Founded given) : Stacked before after former given advised where
  same := stacked.same
  alone none_ := (stacked.alone none_).trans (extends_.carried_eq foundedToo)
  weave := by
    rw [stacked.weave, extends_.carried_eq founded, extends_.carried_eq foundedToo,
      Weave.stackWeaves_eq founded extends_]
  founded := stacked.founded

end Store

theorem Advice.isAdvice_of_createDecorator (advice : Advice) (world : World σ) :
    ∃ decorator later layer, advice.createDecorator.run world = (.ok decorator, later) ∧
      later.store.IsAdvice decorator ∧ later.store.carried (some decorator) = .single layer := by
  refine ⟨_, _, ⟨world.store.layers.size⟩, rfl,
    Store.IsAdvice.of_mark ?_ ?_ (fun empty => ?_) (List.nodup_singleton _) fun root none => ?_⟩
  · exact congrArg Procedure.hook (Store.procedure_addProcedure_self _ _)
  · exact congrArg Procedure.mark (Store.procedure_addProcedure_self _ _)
  · cases empty
  · cases none

/-! ### Advice on fields -/

private theorem Store.Records.keeps {kept : ObjectId → Prop} {before after : Store}
    {object : ObjectId} {fields : List (String × Value)} (records : before.Records object fields)
    (keeps : before.Keeps kept after) (known : before.hasObject object = true)
    (inside : kept object) : after.Records object fields where
  alone := (keeps.extends_.object object known).2.trans records.alone
  own key := by
    rw [ownDescriptor?, keeps.members object known inside, ← ownDescriptor?, records.own]

structure Store.AdvisesField (store : Store) (fields recorded : List (String × Value))
    (key : String) (former given : Option ProcedureId) : Prop where
  gives : ∃ decorator, given = some decorator ∧
    fields.lookup key = some (.procedure decorator) ∧ store.IsAdvice decorator
  held : recorded.lookup key = some (.ofProcedure? former)
  founded : store.Founded former

namespace Store.AdvisesField

variable {before after : Store} {fields recorded more : List (String × Value)} {key : String}
  {former given : Option ProcedureId}

private theorem later (advises : before.AdvisesField fields recorded key former given)
    (extends_ : before.Extends after) (same : more.lookup key = recorded.lookup key) :
    after.AdvisesField fields more key former given where
  gives := by
    rcases advises.gives with ⟨decorator, holds, gives, advice⟩
    exact ⟨decorator, holds, gives, advice.later extends_⟩
  held := same.trans advises.held
  founded := advises.founded.later extends_

private theorem foundedGiven (advises : before.AdvisesField fields recorded key former given) :
    before.Founded given := by
  rcases advises.gives with ⟨_, rfl, _, advice⟩
  exact advice.founded

end Store.AdvisesField

section Fields

variable {meaning : Meaning σ} {kept : ObjectId → Prop}
  (enters : ∀ code entry, Action.Follows (Passage.keeping σ kept) (meaning.enter code entry))
  {target : ObjectId} (inside : kept target)

include enters inside

theorem Decorator.exists_run_installWeave_recorded {now : World σ} {key : String} {old : Value}
    {recorded : List (String × Value)} (known : now.store.hasObject target = true)
    (records : now.store.Records target recorded) (held : recorded.lookup key = some old)
    {weave : Weave} (solid : weave ≠ {}) :
    ∃ woven later, (installWeave meaning weave target key).run now = (.ok (), later) ∧
      now.store.Keeps (fun object => kept object ∧ object ≠ target) later.store ∧
      later.store.Records target ((key, .procedure woven) :: recorded) ∧
      later.store.weaveOf (some (.procedure woven)) =
        now.store.stackWeaves (now.store.weaveOf (some old)) weave := by
  have stacked : now.store.stackWeaves (now.store.weaveOf (some old)) weave ≠ {} := fun empty =>
    solid (Weave.stack_eq_empty_iff.mp empty).2
  rcases Weave.exists_run_build_keeping enters stacked now with ⟨woven, built, ran, keeps, carries⟩
  have recordsThen := records.keeps keeps known inside
  have found : built.store.lookup target key = some (target, .ofValue old) := by
    rw [recordsThen.lookup_eq, held, Option.map_some]
  have assigned := Member.run_assign meaning (.procedure woven) found rfl
  rw [if_pos rfl] at assigned
  let stored := built.store.storeMember target key (.ofValue (.procedure woven))
  refine ⟨woven, { built with store := stored }, ?_, ?_,
    recordsThen.storeMember (keeps.extends_.object target known).1 key _, carries⟩
  · rw [installWeave, Action.run_getStore_bind]
    dsimp only
    rw [records.dataValue?_eq, held, Action.run_bind_of_ok _ ran]
    exact assigned
  · have kept_ := keeps.mono fun object _ (both : kept object ∧ object ≠ target) => both.1
    exact kept_.trans (.of_changesOnly (.of_storeMember _ target key _) fun both => both.2 rfl)

end Fields

namespace Merge

section Fields

variable {kept : ObjectId → Prop} [DecidablePred kept] {budget : Nat} {plan : Plan}
  {source : ObjectId} (inside : kept plan.target) {fields recorded : List (String × Value)}

include inside

theorem exists_run_mixMember_of_advice {now : World σ} {key : String} {former : Option ProcedureId}
    {given : ProcedureId} (reads : now.store.Records source fields)
    (gives : fields.lookup key = some (.procedure given)) (advice : now.store.IsAdvice given)
    (known : now.store.hasObject plan.target = true)
    (records : now.store.Records plan.target recorded)
    (held : recorded.lookup key = some (.ofProcedure? former))
    (founded : now.store.Founded former) :
    ∃ woven later, (mixMember (.sheltering kept (budget + 1)) plan source key []).run now =
        (.ok [], later) ∧
      now.store.Keeps (fun object => kept object ∧ object ≠ plan.target) later.store ∧
      later.store.Records plan.target ((key, .procedure woven) :: recorded) ∧
      Store.Stacked now.store later.store former (some given) (some woven) := by
  have found : now.store.lookup source key = some (source, .ofValue (.procedure given)) := by
    rw [reads.lookup_eq, gives, Option.map_some]
  rcases Decorator.exists_run_installWeave_recorded
    (Meaning.shelters_sheltering kept budget).enter inside known records held advice.solid with
    ⟨woven, later, ran, keeps, recordsThen, carries⟩
  rw [Store.weaveOf_ofProcedure?] at carries
  refine ⟨woven, later, ?_, keeps, recordsThen, nofun, ?_, carries, fun root carried => ?_⟩
  · rw [run_mixMember_of_hook _ plan [] found rfl advice.hook]
    exact Action.run_bind_of_ok _ ran
  · rintro rfl
    exact carries.trans (Store.empty_stackWeaves advice.unique)
  · apply fun (there : now.store.hasProcedure root = true) =>
      (keeps.extends_.procedure root there).1
    have rooted := (congrArg Weave.root carries).symm.trans carried
    rcases Weave.stackRoot_cases now.store.isRequired (now.store.carried former).root
      (now.store.carried (some given)).root with same | same
    · exact founded root (same.symm.trans rooted)
    · exact advice.founded root (same.symm.trans rooted)

variable (budget) in
theorem exists_run_mixAdvice (apart : source ≠ plan.target) (insideToo : kept source)
    {former given : String → Option ProcedureId} (names : List String) {now : World σ}
    (unique : names.Nodup) (there : now.store.hasObject source = true)
    (reads : now.store.Records source fields) (known : now.store.hasObject plan.target = true)
    (records : now.store.Records plan.target recorded)
    (advises : ∀ key ∈ names, now.store.AdvisesField fields recorded key (former key) (given key)) :
    ∃ later merged,
      (names.foldlM (fun held name =>
        mixMember (.sheltering kept (budget + 1)) plan source name held) []).run now =
          (.ok [], later) ∧
      now.store.Keeps (fun object => kept object ∧ object ≠ plan.target) later.store ∧
      later.store.Records plan.target merged ∧
      (∀ key ∉ names, merged.lookup key = recorded.lookup key) ∧
      ∀ key ∈ names, ∃ advised, merged.lookup key = some (.ofProcedure? advised) ∧
        Store.Stacked now.store later.store (former key) (given key) advised := by
  induction names generalizing now recorded with
  | nil =>
      exact ⟨now, recorded, rfl, .refl _ _, records, fun _ _ => rfl, List.forall_mem_nil _⟩
  | cons name names induction =>
      rw [List.nodup_cons] at unique
      rcases advises name (List.mem_cons_self ..) with
        ⟨⟨decorator, holds, gives, advice⟩, held, founded⟩
      rcases exists_run_mixMember_of_advice inside reads gives advice known records held founded
        with ⟨woven, between, ran, keeps, recordsThen, stacked⟩
      have others {key : String} (different : key ≠ name) :
          List.lookup key ((name, .procedure woven) :: recorded) = recorded.lookup key := by
        rw [List.lookup_cons, beq_false_of_ne different]
      have extends_ := keeps.extends_
      rcases induction unique.2 (extends_.object _ there).1
        (reads.keeps keeps there ⟨insideToo, apart⟩) (extends_.object _ known).1 recordsThen
        (fun key member => (advises key (List.mem_cons_of_mem _ member)).later extends_
          (others fun same => unique.1 (same ▸ member)))
        with ⟨later, merged, ranRest, keepsRest, recordsLater, elsewhere, outcomes⟩
      refine ⟨later, merged, ?_, keeps.trans keepsRest, recordsLater, fun key outside => ?_,
        List.forall_mem_cons.mpr ⟨⟨some woven, ?_, ?_⟩, fun key member => ?_⟩⟩
      · rw [List.foldlM_cons, Action.run_bind_of_ok _ ran]
        exact ranRest
      · rw [List.mem_cons, not_or] at outside
        rw [elsewhere key outside.2, others outside.1]
      · rw [elsewhere name unique.1, List.lookup_cons, beq_self_eq_true]
        rfl
      · rw [holds]
        exact stacked.later keepsRest.extends_
      · rcases outcomes key member with ⟨advised, merges, stackedRest⟩
        have advisesKey := advises key (List.mem_cons_of_mem _ member)
        exact ⟨advised, merges,
          stackedRest.since extends_ advisesKey.founded advisesKey.foundedGiven⟩

end Fields

section Fields

variable {kept : ObjectId → Prop} [DecidablePred kept] (budget : Nat) {source target : ObjectId}
  {fields recorded : List (String × Value)} {former given : String → Option ProcedureId}

theorem exists_run_mixin_advice {start : Store} (now : World σ)
    (drafts : start.Drafts recorded fields target source now.store) (insideTarget : kept target)
    (insideSource : kept source)
    (gives : ∀ key, fields.lookup key = (given key).map .procedure)
    (advice : ∀ key decorator, given key = some decorator → now.store.IsAdvice decorator ∧
      recorded.lookup key = some (.ofProcedure? (former key)))
    (founded : ∀ key, now.store.Founded (former key)) :
    ∃ later merged, (mixin (.sheltering kept (budget + 1)) target [.object source] .raw).run now =
        (.ok [], later) ∧
      now.store.Keeps (fun object => kept object ∧ object ≠ target) later.store ∧
      later.store.Records target merged ∧
      (∀ key, given key = none → merged.lookup key = recorded.lookup key) ∧
      ∀ key, recorded.lookup key = some (.ofProcedure? (former key)) →
        ∃ advised, merged.lookup key = some (.ofProcedure? advised) ∧
          Store.Stacked now.store later.store (former key) (given key) advised := by
  let plan : Plan := ⟨target, .raw, [.object source]⟩
  have listed (key : String) : key ∈ now.store.enumerableNames source ↔
      (given key).isSome = true := by
    rw [drafts.gives.mem_enumerableNames_iff, gives, Option.isSome_map]
  have advises : ∀ key ∈ now.store.enumerableNames source,
      now.store.AdvisesField fields recorded key (former key) (given key) := by
    intro key member
    rcases Option.isSome_iff_exists.mp ((listed key).mp member) with ⟨decorator, holds⟩
    rcases advice key decorator holds with ⟨isAdvice, held⟩
    exact ⟨⟨decorator, holds, by rw [gives, holds, Option.map_some], isAdvice⟩, held, founded key⟩
  have target : kept plan.target := insideTarget
  rcases exists_run_mixAdvice budget target drafts.apart insideSource _
    (now.store.nodup_enumerableNames source) drafts.there drafts.gives drafts.known drafts.records
    advises with
    ⟨later, merged, ran, keeps, recordsThen, elsewhere, outcomes⟩
  have absent {key : String} (none_ : given key = none) :
      key ∉ now.store.enumerableNames source := by
    rw [listed, none_]
    exact Bool.false_ne_true
  refine ⟨later, merged, Action.run_bind_of_ok _ ?_, keeps, recordsThen,
    fun key none_ => elsewhere key (absent none_), fun key held => ?_⟩
  · rw [mixSource, Action.run_getStore_bind]
    exact ran
  · cases holds : given key with
    | none =>
        exact ⟨former key, (elsewhere key (absent holds)).trans held,
          .of_none keeps.extends_ (founded key)⟩
    | some decorator =>
        rw [← holds]
        exact outcomes key ((listed key).mpr (by rw [holds]; rfl))

end Fields

end Merge

/-! ### Patches that give advice

A patch advises if all that it gives is advice, on the getter or on the setter. What the accessor
has become once it is installed is the former one with that advice stacked on it. -/

def Store.upcoming (store : Store) (count : Nat) : List ObjectId :=
  (List.range count).map fun position => ⟨store.objects.size + position⟩

theorem Store.mem_upcoming_iff {store : Store} {count : Nat} {object : ObjectId} :
    object ∈ store.upcoming count ↔
      store.objects.size ≤ object.index ∧ object.index < store.objects.size + count := by
  rw [upcoming, List.mem_map]
  constructor
  · rintro ⟨position, member, rfl⟩
    exact ⟨Nat.le_add_right _ _, Nat.add_lt_add_left (List.mem_range.mp member) _⟩
  · rintro ⟨above, below⟩
    exact ⟨object.index - store.objects.size, List.mem_range.mpr (by omega),
      congrArg ObjectId.mk (by omega)⟩

namespace Patch

structure Advising (patch : Patch) (store : Store) : Prop where
  alone : patch = { getter := patch.getter, setter := patch.setter }
  getter : ∀ decorator, patch.getter = some decorator → store.IsAdvice decorator
  setter : ∀ decorator, patch.setter = some decorator → store.IsAdvice decorator

def advice? (patch : Patch) (key : String) : Option ProcedureId :=
  if key = "get" then patch.getter else if key = "set" then patch.setter else none

variable {patch : Patch} {store : Store} (advising : patch.Advising store)

include advising

private theorem Advising.lookup_fields (key : String) :
    patch.fields.lookup key = (patch.advice? key).map .procedure := by
  have given := patch.lookup_fields key
  rw [advising.alone] at given ⊢
  rw [given, advice?]
  by_cases get : key = "get"
  · subst get
    rfl
  by_cases set : key = "set"
  · subst set
    rfl
  · rw [if_neg get, if_neg set]
    simp only [List.lookup_cons, beq_false_of_ne get, beq_false_of_ne set]
    cases key == "value" <;> cases key == "writable" <;> cases key == "enumerable" <;>
      cases key == "configurable" <;> rfl

private theorem Advising.isAdvice {key : String} {decorator : ProcedureId}
    (given : patch.advice? key = some decorator) : store.IsAdvice decorator := by
  unfold advice? at given
  split at given
  · exact advising.getter decorator given
  split at given
  · exact advising.setter decorator given
  · cases given

theorem Advising.later {after : Store} (extends_ : store.Extends after) :
    patch.Advising after where
  alone := advising.alone
  getter decorator given := (advising.getter decorator given).later extends_
  setter decorator given := (advising.setter decorator given).later extends_

theorem Advising.founded (key : String) : store.Founded (patch.advice? key) := by
  cases given : patch.advice? key with
  | none => nofun
  | some decorator => exact (advising.isAdvice given).founded

end Patch

def Descriptor.procedure? (descriptor : Descriptor) (key : String) : Option ProcedureId :=
  if key = "get" then descriptor.getter? else if key = "set" then descriptor.setter? else none

private theorem Descriptor.lookup_fields_of_advice {descriptor : Descriptor} {patch : Patch}
    {key : String}
    (accessor : descriptor.isAccessor = true) (given : (patch.advice? key).isSome = true) :
    descriptor.fields.lookup key = some (.ofProcedure? (descriptor.procedure? key)) := by
  rcases descriptor with ⟨_ | ⟨getter, setter⟩, enumerable, configurable⟩
  · cases accessor
  unfold Patch.advice? at given
  split at given
  · next get => subst get; rfl
  split at given
  · next set => subst set; rfl
  · cases given

structure Store.FoundsAccessor (store : Store) (descriptor : Descriptor) : Prop where
  accessor : descriptor.isAccessor = true
  getter : store.Founded descriptor.getter?
  setter : store.Founded descriptor.setter?

structure Store.Advised (before after : Store) (former : Descriptor) (patch : Patch)
    (advised : Descriptor) : Prop where
  accessor : advised.isAccessor = true
  getter : before.Stacked after former.getter? patch.getter advised.getter?
  setter : before.Stacked after former.setter? patch.setter advised.setter?
  enumerable : advised.enumerable = former.enumerable
  configurable : advised.configurable = former.configurable

namespace Store

variable {before middle after : Store} {former advised : Descriptor} {patch : Patch}

theorem FoundsAccessor.later (founds : before.FoundsAccessor former)
    (extends_ : before.Extends after) : after.FoundsAccessor former where
  accessor := founds.accessor
  getter := founds.getter.later extends_
  setter := founds.setter.later extends_

private theorem FoundsAccessor.founded (founds : before.FoundsAccessor former) (key : String) :
    before.Founded (former.procedure? key) := by
  unfold Descriptor.procedure?
  split
  · exact founds.getter
  split
  · exact founds.setter
  · nofun

theorem Advised.founds (advises : before.Advised after former patch advised) :
    after.FoundsAccessor advised where
  accessor := advises.accessor
  getter := advises.getter.founded
  setter := advises.setter.founded

theorem Advised.later (advises : before.Advised middle former patch advised)
    (extends_ : middle.Extends after) : before.Advised after former patch advised :=
  { advises with
    getter := advises.getter.later extends_
    setter := advises.setter.later extends_ }

theorem Advised.since (advises : middle.Advised after former patch advised)
    (extends_ : before.Extends middle) (founds : before.FoundsAccessor former)
    (advising : patch.Advising before) : before.Advised after former patch advised :=
  { advises with
    getter := advises.getter.since extends_ founds.getter (advising.founded "get")
    setter := advises.setter.since extends_ founds.setter (advising.founded "set") }

end Store

namespace Decorator

section Patches

variable {kept : ObjectId → Prop} [DecidablePred kept] (budget : Nat) {world : World σ}
  {patch : Patch} (advising : patch.Advising world.store) {former : Descriptor}
  (founds : world.store.FoundsAccessor former)
  (inside : ∀ draft ∈ world.store.upcoming 2, kept draft) (name : String)

include advising founds inside

theorem exists_run_patched_advising :
    ∃ advised later, (patched (.sheltering kept (budget + 1)) name former patch).run world =
        (.ok advised, later) ∧
      world.store.Keeps kept later.store ∧
      world.store.Advised later.store former patch advised := by
  let first := Store.encode former.fields world.store
  let second := Store.encode patch.fields first.2
  have drafts : world.store.Drafts former.fields patch.fields first.1 second.1 second.2 :=
    .of_encode former.nodup_keys_fields patch.nodup_keys_fields world.store
  have extends_ := drafts.adds.extends_
  have insideFirst : kept first.1 := inside first.1 (List.mem_cons_self ..)
  have insideSecond : kept second.1 := by
    apply inside second.1
    rw [show second.1 = _ from Store.nextObject_encode former.fields world.store]
    exact List.mem_cons_of_mem _ (List.mem_cons_self ..)
  have advice (key : String) (decorator : ProcedureId)
      (given : patch.advice? key = some decorator) :
      second.2.IsAdvice decorator ∧
        former.fields.lookup key = some (.ofProcedure? (former.procedure? key)) :=
    ⟨(advising.isAdvice given).later extends_,
      former.lookup_fields_of_advice founds.accessor (by rw [given]; rfl)⟩
  rcases Merge.exists_run_mixin_advice budget { world with store := second.2 } drafts insideFirst
    insideSecond advising.lookup_fields advice (fun key => (founds.founded key).later extends_) with
    ⟨later, merged, ran, keeps, recordsThen, elsewhere, outcomes⟩
  rcases former with ⟨_ | ⟨getter, setter⟩, enumerable, configurable⟩
  · cases founds.accessor
  rcases outcomes "get" rfl with ⟨advisedGetter, gets, stackedGetter⟩
  rcases outcomes "set" rfl with ⟨advisedSetter, sets, stackedSetter⟩
  refine ⟨⟨.accessor advisedGetter advisedSetter, enumerable, configurable⟩, later, ?_, ?_, rfl,
    stackedGetter.since extends_ founds.getter (advising.founded "get"),
    stackedSetter.since extends_ founds.setter (advising.founded "set"), rfl, rfl⟩
  · rw [patched, Descriptor.encode, Action.run_edit_bind, Patch.encode, Action.run_edit_bind,
      Action.run_bind_of_ok _ ran, Descriptor.run_decode_of_records _ none (some advisedGetter)
      (some advisedSetter) (some enumerable) (some configurable) name recordsThen
      (elsewhere _ rfl) gets sets (elsewhere _ rfl) (elsewhere _ rfl), elsewhere "value" rfl]
    rfl
  · have encoded : world.store.Keeps (fun object => kept object ∧ object ≠ first.1) second.2 :=
      (Store.Keeps.of_encode world.store _).trans (.of_encode first.2 patch.fields)
    exact (encoded.trans keeps).mono fun object knownThen sheltered =>
      ⟨sheltered, (Store.nextObject_ne knownThen).symm⟩

variable (kept) in
/-- An object that inherits an accessor comes to own one with the advice stacked on it. -/
theorem exists_run_install_advising {target : ObjectId}
    (known : world.store.hasObject target = true) (sheltered : kept target)
    (unowned : world.store.ownDescriptor? target name = none)
    (resolved : world.store.descriptor? target name = some former) :
    ∃ (advised : Descriptor) (drafted : World σ),
      (install (.sheltering kept (budget + 1)) (.patch patch) target name).run world =
        (.ok (), { drafted with store := drafted.store.storeMember target name advised }) ∧
      world.store.Keeps kept drafted.store ∧
      world.store.Advised drafted.store former patch advised := by
  rcases exists_run_patched_advising budget advising founds inside name with
    ⟨advised, drafted, ran, keeps, advises⟩
  refine ⟨advised, drafted, ?_, keeps, advises⟩
  have unownedThen : drafted.store.ownDescriptor? target name = none := by
    rw [Store.ownDescriptor?, keeps.members target known sheltered]
    exact unowned
  rw [install, installPatch, Action.run_getStore_bind, resolved]
  exact (Action.run_bind_of_ok _ ran).trans (Member.run_define _ unownedThen)

end Patches

end Decorator

end TraitComposition
