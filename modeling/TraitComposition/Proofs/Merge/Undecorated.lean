import TraitComposition.Proofs.Merge.Independence
import TraitComposition.Proofs.Merge.Outcomes

/-!
Merges of sources without decorators. What such a merge may call are the setters and the definers
of its destination, and these it gives arguments; what getters do makes no difference to it. No
hook is run either, even if a source delegates to the destination: all that the destination comes
by meanwhile are members that carry none. So where no setter and no definer runs, the merge comes
to the same end on the machine that does nothing at all.
-/
namespace TraitComposition

variable {σ α : Type}

/-! ### What a merge calls -/

/-- Whether two machines install alike and do the same whenever they call something with
arguments. Getters are called without any. -/
structure Meaning.AlikeButGetters (first second : Meaning σ) : Prop where
  install : first.install = second.install
  call : ∀ procedure receiver argument arguments,
    first.call procedure receiver (argument :: arguments) =
      second.call procedure receiver (argument :: arguments)

section Alike

variable {first second : Meaning σ} (alike : first.AlikeButGetters second)

include alike

private theorem Meaning.AlikeButGetters.put_eq (plan : Merge.Plan) (name : String)
    (descriptor : Descriptor) :
    Merge.put first plan name descriptor = Merge.put second plan name descriptor := by
  have assigns (value : Value) :
      Member.assign first plan.target name value = Member.assign second plan.target name value := by
    simp only [Member.assign, alike.call]
  have defines : plan.definer.define first plan.target name descriptor =
      plan.definer.define second plan.target name descriptor := by
    simp only [Definer.define, alike.call]
  simp only [Merge.put, assigns, defines]

private theorem Meaning.AlikeButGetters.mixSource_eq (plan : Merge.Plan) (index : Nat)
    (source : Value) (held : List Conflict) :
    Merge.mixSource first plan index source held =
      Merge.mixSource second plan index source held := by
  have puts := alike.put_eq plan
  simp only [Merge.mixSource, Merge.mixMethod, Merge.mixMember, alike.install, puts]

theorem Meaning.AlikeButGetters.mixSources_eq (plan : Merge.Plan) :
    ∀ (index : Nat) (sources : List Value) (held : List Conflict),
      Merge.mixSources first plan index sources held =
        Merge.mixSources second plan index sources held
  | _, [], _ => rfl
  | index, source :: sources, held => by
      rw [Merge.mixSources, Merge.mixSources, alike.mixSource_eq]
      exact congrArg _ (funext fun left => mixSources_eq plan (index + 1) sources left)

end Alike

namespace Meaning

variable (meaning : Meaning σ)

def withoutArguments : Meaning σ :=
  { meaning with
    call := fun procedure receiver arguments =>
      if arguments.isEmpty then meaning.call procedure receiver arguments
      else exhausted.call procedure receiver arguments }

def installing : Meaning σ :=
  { exhausted with install := meaning.install }

theorem alike_installing : meaning.withoutArguments.AlikeButGetters meaning.installing where
  install := rfl
  call _ _ _ _ := rfl

end Meaning

/-- Whether an operation runs no setter and no definer: it comes out the same where nothing can
be called with arguments. -/
def Unwritten (operation : Meaning σ → Action σ α) (meaning : Meaning σ) (world : World σ) :
    Prop :=
  (operation meaning.withoutArguments).run world = (operation meaning).run world

/-! ### Amid a merge -/

def Passage.amid (σ : Type) (target : ObjectId) : Passage σ where
  leads before after := before.store.hasObject target = true →
    before.store.Amid target after.store
  refl _ known := .refl known
  trans first rest known := (first known).trans (rest (first known).known)

namespace Merge

theorem asks_amid (target : ObjectId) : Asks (Passage.amid σ target) :=
  fun procedure _ known => (Store.Amid.refl known).prototypeOf procedure

/-- The table that is visited is the one that the source had from the start; if it had none, there
is nothing in it. -/
theorem Visit.front_or_idle {start now after : Store} {target : ObjectId}
    (amid : start.Amid target now) {index : Nat} {source : Value} {visit : Visit}
    (starts : Visit.start? index source now = some (visit, after)) :
    start.Amid target after ∧
      (start.front? source = some visit.table ∨
        start.front? source = none ∧ after.enumerableNames visit.table = []) := by
  have asked : now.Amid target after := Visit.leads_of_start? (asks_amid target)
    (⟨now, #[], ()⟩ : World Unit) starts amid.known
  refine ⟨amid.trans asked, ?_⟩
  cases source with
  | procedure procedure =>
      have tabled := amid.prototypeOf procedure
      cases starts
      rcases amid.prototypeOf_cases procedure with found | ⟨missing, vacant⟩
      · exact .inl found
      · have adds := (tabled.spans_prototypes [.procedure procedure]).2.1
        exact .inr
          ⟨missing, (vacant.later (adds.changesOnly target)).blank.enumerableNames_eq_nil⟩
  | object table =>
      cases starts
      exact .inl rfl
  | _ => cases starts

end Merge

namespace Store

theorem shows_iff_of_front? {store : Store} {source : Value} {table : ObjectId}
    (front : store.front? source = some table) {name : String} {method : ProcedureId} :
    store.shows name method source = true ↔
      store.shown? table name = some (.procedure method) := by
  have same : store.shows name method source =
      (store.shown? table name).any (·.same (.procedure method)) := by
    cases source with
    | procedure procedure => rw [shows, prototypeOf_of_table? front]
    | object object =>
        cases front
        rfl
    | _ => cases front
  rw [same, any_same_procedure_iff]

structure HooksNothing (target : ObjectId) (before after : Store) : Prop
    extends Amid before target after where
  stays : ∀ name, (Merge.hookUnder? after target name).isSome = true →
    after.descriptor? target name = before.descriptor? target name

namespace HooksNothing

variable {target : ObjectId} {first second third : Store}

theorem refl (known : first.hasObject target = true) : HooksNothing target first first where
  toAmid := .refl known
  stays _ _ := rfl

theorem trans (start : HooksNothing target first second)
    (rest : HooksNothing target second third) : HooksNothing target first third where
  toAmid := start.toAmid.trans rest.toAmid
  stays name hooked := by
    have same := rest.stays name hooked
    rw [same, start.stays name]
    rw [Merge.hookUnder?, same] at hooked
    rw [Merge.hookUnder?]
    simpa only [rest.hook] using hooked

private theorem of_asked {σ : Type} {before after : World σ} (rooted : before.store.Rooted)
    (known : before.store.hasObject target = true) (asked : Merge.Asked before after) :
    HooksNothing target before.store after.store where
  toAmid := asked _ (Merge.asks_amid target) known
  stays _ _ := asked.changes.descriptor?_eq rooted known fun _ _ => id

end HooksNothing

end Store

namespace Merge

open Store (HooksNothing)
open TraitComposition.Action (succeeded_of_bind)

/-! ### Turns -/

section Step

variable {plan : Plan} {name : String} {world later : World σ}

theorem hooksNothing_of_put (rooted : world.store.Rooted)
    (known : world.store.hasObject plan.target = true) {descriptor : Descriptor}
    (kept : (descriptor.method?.bind fun method => (world.store.procedure method).hook).isSome =
      true → world.store.descriptor? plan.target name = some descriptor)
    (ran : (put .exhausted plan name descriptor).run world = (.ok (), later)) :
    world.store.HooksNothing plan.target later.store := by
  rcases stores_of_put (fun _ _ _ => ⟨_, rfl⟩) ran with ⟨stored, rfl, stores⟩
  refine ⟨(Store.Amid.refl known).storeMember name stored, fun other hooked => ?_⟩
  by_cases same : other = name
  · subst same
    have own := Store.descriptor?_of_own
      (Store.ownDescriptor?_storeMember_same world.store plan.target other stored known)
    rw [hookUnder?, own, Option.bind_some] at hooked
    rw [own]
    rcases stores with rfl | ⟨existing, value, old, owned, writable, valued, rfl⟩
    · exact (kept hooked).symm
    · have carries : (existing.withValue value).method? = descriptor.method? := by
        rw [Descriptor.method?, Descriptor.method?, valued, Descriptor.withValue, writable]
        rfl
      rw [carries] at hooked
      have resolved := kept hooked
      rw [Store.descriptor?_of_own owned] at resolved
      cases resolved
      rw [Store.descriptor?_of_own owned, Descriptor.withValue_of_value? valued]
  · rw [Store.descriptor?, Store.descriptor?,
      (Store.ChangesWithin.of_storeMember world.store plan.target name stored).lookup_eq rooted
        known fun _ _ both => same both.2]

namespace Turn

variable (turn : Turn σ) {left : List Conflict}

theorem decorator?_eq_none_of_unhooked {target : ObjectId}
    (unhooked : hookUnder? turn.before.store turn.visit.table turn.name = none) :
    turn.decorator? target = none := by
  cases decorates : turn.decorator? target with
  | none => rfl
  | some decorator =>
      have installs := turn.installs_decorator? .exhausted ⟨target, .raw, []⟩
      rw [decorates] at installs
      rcases installs with ⟨hook, hooked, _⟩
      have method := method?_of_decorator? decorates
      rw [method?] at method
      rw [hookUnder?, method, Option.bind_some, hooked] at unhooked
      cases unhooked

variable (unhooked : hookUnder? turn.before.store turn.visit.table turn.name = none)

include unhooked

theorem run_installing (meaning : Meaning σ) :
    turn.run meaning.installing plan = turn.run .exhausted plan := by
  have installs := turn.installs_decorator? meaning.installing plan
  rw [turn.decorator?_eq_none_of_unhooked unhooked] at installs
  exact (installs (Meaning.exhausted (σ := σ)).install).symm

theorem hooksNothing_of_run (rooted : turn.before.store.Rooted)
    (known : turn.before.store.hasObject plan.target = true)
    (ran : turn.run .exhausted plan = (.ok left, later)) :
    turn.before.store.HooksNothing plan.target later.store := by
  cases turn.outcome .exhausted plan with
  | nothing asks _ does =>
      cases does.symm.trans ran
      exact .of_asked rooted known asks
  | hook _ _ does => cases does.symm.trans ran
  | @member asked answer descriptor asks origin does =>
      have before : turn.before.store.HooksNothing plan.target asked.store :=
        .of_asked rooted known asks
      rcases succeeded_of_bind (does.symm.trans ran) with ⟨_, _, ranPut, done⟩
      cases done
      refine before.trans (hooksNothing_of_put (before.changes.rooted rooted) before.known
        (fun hooked => ?_) ranPut)
      rcases origin with shown | kept
      · rw [hookUnder?, shown, Option.bind_some] at unhooked
        simp only [before.hook] at hooked
        rw [unhooked] at hooked
        cases hooked
      · exact kept

end Turn

end Step

/-! ### Sources -/

theorem unhooked_of_undecorated {start begun now : Store} {target table : ObjectId}
    {source : Value} {name : String} (rooted : start.Rooted)
    (known : start.hasObject table = true) (front : start.front? source = some table)
    (undecorated : start.Undecorated source) (before : start.HooksNothing target begun)
    (sofar : begun.HooksNothing target now) (listed : name ∈ begun.enumerableNames table) :
    hookUnder? now table name = none := by
  cases hooked : hookUnder? now table name with
  | none => rfl
  | some hook =>
      have all := before.trans sofar
      -- Whoever the decorator belongs to, it has been there from the start.
      have same : begun.descriptor? table name = now.descriptor? table name ∧
          start.descriptor? table name = now.descriptor? table name := by
        have early := Store.ChangesWithin.of_changesOnly before.changes
        have late := Store.ChangesWithin.of_changesOnly all.changes
        rcases Store.lookup_fixed_or_through rooted known target name with fixed | through
        · simp only [Store.descriptor?, fixed begun early, fixed now late, and_self]
        · have reads (store : Store) (changes : Store.ChangesWithin (.object target) start store) :
              store.descriptor? table name = store.descriptor? target name := by
            rw [Store.descriptor?, through store changes, Store.descriptor?]
          have decorates : (hookUnder? now target name).isSome = true := by
            rw [hookUnder?, ← reads now late, ← hookUnder?, hooked]
            rfl
          rw [reads begun early, reads now late, reads start (.refl _ _)]
          exact ⟨(sofar.stays name decorates).symm, (all.stays name decorates).symm⟩
      rcases Option.bind_eq_some_iff.mp hooked with ⟨method, holds, carries⟩
      rcases Store.mem_enumerableNames_iff.mp listed with ⟨descriptor, shown, enumerable⟩
      have shows : start.shows name method source = true := by
        rw [Store.shows_iff_of_front? front, Store.shown?_eq_procedure_iff, same.2]
        refine ⟨Store.mem_enumerableNames_iff.mpr ⟨descriptor, ?_, enumerable⟩, holds⟩
        rw [same.2, ← same.1, shown]
      have plain := undecorated name method shows
      rw [Store.isDecorator, ← all.hook, carries] at plain
      cases plain

section Sources

variable {meaning : Meaning σ} {plan : Plan} {start : Store} (rooted : start.Rooted)
  {world later : World σ} {held left : List Conflict}

include rooted

private theorem run_names_of_undecorated {visit : Visit} {source : Value} {begun : Store}
    (known : start.hasObject visit.table = true)
    (front : start.front? source = some visit.table) (undecorated : start.Undecorated source)
    (before : start.HooksNothing plan.target begun) :
    ∀ {names : List String} {held : List Conflict} {world : World σ},
      (∀ name ∈ names, name ∈ begun.enumerableNames visit.table) →
      begun.HooksNothing plan.target world.store →
      (names.foldlM (fun held name => visit.mix meaning.installing plan name held) held).run world =
        (.ok left, later) →
      (names.foldlM (fun held name => visit.mix .exhausted plan name held) held).run world =
          (.ok left, later) ∧
        begun.HooksNothing plan.target later.store
  | [], _, _, _, sofar, ran => by
      cases ran
      exact ⟨rfl, sofar⟩
  | name :: names, held, world, listed, sofar, ran => by
      rw [List.forall_mem_cons] at listed
      rw [List.foldlM_cons] at ran ⊢
      rcases succeeded_of_bind ran with ⟨between, now, ranFirst, ranRest⟩
      have unhooked := unhooked_of_undecorated rooted known front undecorated before sofar listed.1
      let turn : Turn σ := ⟨visit, name, held, world⟩
      have ranTurn : turn.run .exhausted plan = (.ok between, now) :=
        (turn.run_installing unhooked meaning).symm.trans ranFirst
      have steps := turn.hooksNothing_of_run unhooked
        (sofar.changes.rooted (before.changes.rooted rooted)) sofar.known ranTurn
      rcases run_names_of_undecorated known front undecorated before listed.2 (sofar.trans steps)
        ranRest with ⟨rest, reached⟩
      rw [Action.run_bind_of_ok _ ranTurn]
      exact ⟨rest, reached⟩

private theorem run_mixSource_of_undecorated {index : Nat} {source : Value}
    (tables : start.HasTablesOf source) (undecorated : start.Undecorated source)
    (sofar : start.HooksNothing plan.target world.store)
    (ran : (mixSource meaning.installing plan index source held).run world = (.ok left, later)) :
    (mixSource .exhausted plan index source held).run world = (.ok left, later) ∧
      start.HooksNothing plan.target later.store := by
  rw [run_mixSource_eq_visit] at ran ⊢
  cases starts : Visit.start? index source world.store with
  | none =>
      rw [starts] at ran
      cases ran
  | some started =>
      rcases started with ⟨visit, store⟩
      simp only [starts] at ran ⊢
      have asked : Asked world { world with store := store } :=
        fun passage asks => Visit.leads_of_start? asks world starts
      have begun := sofar.trans (.of_asked (sofar.changes.rooted rooted) sofar.known asked)
      rcases (Visit.front_or_idle sofar.toAmid starts).2 with front | ⟨_, idle⟩
      · rcases run_names_of_undecorated rooted (tables.front _ front) front undecorated begun
          (fun _ listed => listed) (.refl begun.known) ran with ⟨same, reached⟩
        exact ⟨same, begun.trans reached⟩
      · rw [idle] at ran ⊢
        cases ran
        exact ⟨rfl, begun⟩

theorem run_mixSources_of_undecorated :
    ∀ {index : Nat} {sources : List Value} {held : List Conflict} {world : World σ},
      (∀ source ∈ sources, start.HasTablesOf source) →
      (∀ source ∈ sources, start.Undecorated source) →
      start.HooksNothing plan.target world.store →
      (mixSources meaning.installing plan index sources held).run world = (.ok left, later) →
      (mixSources .exhausted plan index sources held).run world = (.ok left, later)
  | _, [], _, _, _, _, _, ran => ran
  | index, source :: sources, held, world, tables, undecorated, sofar, ran => by
      rw [List.forall_mem_cons] at tables undecorated
      rcases succeeded_of_bind ran with ⟨between, now, ranFirst, ranRest⟩
      rcases run_mixSource_of_undecorated rooted tables.1 undecorated.1 sofar ranFirst with
        ⟨same, reached⟩
      rw [mixSources, Action.run_bind_of_ok _ same]
      exact run_mixSources_of_undecorated tables.2 undecorated.2 reached ranRest

end Sources

end Merge

end TraitComposition
