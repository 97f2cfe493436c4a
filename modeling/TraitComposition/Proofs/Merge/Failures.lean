import TraitComposition.Proofs.Machine.Sheltering
import TraitComposition.Proofs.Merge.Names

/-!
Merges that fail. The last thing that the library does at a turn is to write to the
destination, so a turn that fails has not written to it, and a merge that fails leaves the
destination as the turns before the last one left it.
-/
namespace TraitComposition

variable {σ α β : Type} {passage : Passage σ}

/-! ### Failed runs -/

def Action.FailsWithin (passage : Passage σ) (action : Action σ α) : Prop :=
  ∀ world fault later, action.run world = (.error fault, later) → passage.leads world later

open TraitComposition.Action (Follows FailsWithin)

namespace Action.FailsWithin

theorem of_follows {action : Action σ α} (follows : Follows passage action) :
    FailsWithin passage action := by
  intro world fault later ran
  have reached := follows world
  rwa [ran] at reached

private theorem throw (fault : Fault) :
    FailsWithin passage (MonadExcept.throw fault : Action σ α) :=
  of_follows (Follows.throw fault)

theorem bind {action : Action σ α} {next : α → Action σ β} (first : Follows passage action)
    (rest : ∀ answer, FailsWithin passage (next answer)) :
    FailsWithin passage (action >>= next) := by
  intro world fault later ran
  have reached := first world
  rw [run_bind] at ran
  rcases start : action.run world with ⟨other | answer, between⟩
  · rw [start] at ran reached
    cases ran
    exact reached
  · rw [start] at ran reached
    exact passage.trans reached (rest answer between fault later ran)

theorem map {action : Action σ α} (fails : FailsWithin passage action) (reshape : α → β) :
    FailsWithin passage (action >>= fun answer => pure (reshape answer)) := by
  intro world fault later ran
  rw [run_bind] at ran
  rcases start : action.run world with ⟨other | answer, between⟩
  · rw [start] at ran
    cases ran
    exact fails world _ _ start
  · rw [start] at ran
    cases ran

end Action.FailsWithin

/-! ### Operations that write last -/

variable {meaning : Meaning σ}

private theorem Member.failsWithin_define (object : ObjectId) (name : String)
    (descriptor : Descriptor) :
    FailsWithin passage (Member.define object name descriptor) := by
  intro world fault later ran
  rw [define, Action.run_getStore_bind] at ran
  split at ran
  · cases ran
  · cases ran
    exact passage.refl world

section Calls

variable (calls : ∀ procedure receiver arguments,
  Follows passage (meaning.call procedure receiver arguments))

include calls

private theorem Member.failsWithin_assign (object : ObjectId) (name : String) (value : Value) :
    FailsWithin passage (Member.assign meaning object name value) := by
  intro world fault later ran
  rw [assign, Action.run_getStore_bind] at ran
  split at ran
  · cases ran
  · split at ran
    · exact FailsWithin.of_follows
        (Follows.bind (Follows.naming name (calls _ _ _)) fun _ => Follows.pure _) _ _ _ ran
    · cases ran
      exact passage.refl world
    · cases ran
      exact passage.refl world
    · split at ran
      · cases ran
      · cases ran

private theorem Definer.failsWithin_define (encodes : ∀ descriptor : Descriptor,
      Follows passage (descriptor.encode : Action σ ObjectId))
    (definer : Definer) (object : ObjectId) (name : String) (descriptor : Descriptor) :
    FailsWithin passage (definer.define meaning object name descriptor) := by
  cases definer with
  | raw => exact Member.failsWithin_define object name descriptor
  | custom procedure =>
      apply FailsWithin.of_follows
      apply Follows.bind (encodes descriptor)
      intro fields
      exact Follows.bind (Follows.naming name (calls _ _ _)) fun _ => Follows.pure _

end Calls

namespace Merge

variable {plan : Plan}

structure Falters (passage : Passage σ) (meaning : Meaning σ) (plan : Plan)
    (name : String) : Prop where
  asks : Asks passage
  assign : ∀ value, FailsWithin passage (Member.assign meaning plan.target name value)
  define : ∀ descriptor,
    FailsWithin passage (plan.definer.define meaning plan.target name descriptor)
  install : ∀ hook, FailsWithin passage (meaning.install hook plan.target name)

namespace Falters

variable {name : String} (falters : Falters passage meaning plan name)

include falters

private theorem put (descriptor : Descriptor) :
    FailsWithin passage (put meaning plan name descriptor) := by
  unfold Merge.put
  split
  · apply FailsWithin.bind Follows.getStore
    intro store
    split
    · exact falters.assign _
    · exact falters.define descriptor
  · exact falters.define descriptor

private theorem mixMethod (index : Nat) (table : ObjectId) (ownChain : List ObjectId)
    (held : List Conflict) :
    FailsWithin passage (mixMethod meaning plan index table ownChain name held) := by
  apply FailsWithin.bind Follows.getStore
  intro store
  split
  · exact .of_follows (Follows.pure _)
  · next owner descriptor found =>
    dsimp only
    split
    · exact (falters.put descriptor).map _
    · next incoming method =>
      split
      · exact (falters.install _).map _
      · apply FailsWithin.bind (follows_weigh falters.asks _ _ _ _ _ _)
        intro resolution
        cases resolution with
        | keepDestination =>
          apply FailsWithin.bind Follows.getStore
          intro store
          split
          · exact (falters.put _).map _
          · exact .of_follows (Follows.pure _)
        | conflict existing => exact (falters.put descriptor).map _
        | incoming => exact (falters.put descriptor).map _

private theorem mixMember (table : ObjectId) (held : List Conflict) :
    FailsWithin passage (mixMember meaning plan table name held) := by
  apply FailsWithin.bind Follows.getStore
  intro store
  split
  · exact .of_follows (Follows.pure _)
  · next owner descriptor found =>
    dsimp only
    generalize (if owner = table then settleConflict name held else held) = settled
    split
    · exact (falters.put descriptor).map _
    · next method =>
      split
      · exact (falters.install _).map _
      · split
        · exact .of_follows (Follows.pure _)
        · exact (falters.put descriptor).map _

private theorem mix (visit : Visit) (held : List Conflict) :
    FailsWithin passage (visit.mix meaning plan name held) := by
  unfold Visit.mix
  split
  · exact falters.mixMethod _ _ _ held
  · exact falters.mixMember _ held

end Falters

end Merge

/-! ### Hooks that fail -/

namespace Decorator

variable {kept : ObjectId → Prop} (shelters : meaning.Shelters kept) (object : ObjectId)
  (name : String)

include shelters

theorem failsWithin_install (hook : Hook) :
    FailsWithin (Passage.keeping σ kept) (install meaning hook object name) := by
  cases hook with
  | weave weave =>
      apply FailsWithin.bind Follows.getStore
      intro store
      apply FailsWithin.bind (Weave.follows_build shelters.enter
        (fun procedure _ => Action.keeping_edit fun store => .of_addProcedure store procedure) _)
      intro advised
      split
      · exact Member.failsWithin_assign shelters.call object name _
      · exact .of_follows (Follows.pure _)
  | patch patch =>
      apply FailsWithin.bind Follows.getStore
      intro store
      dsimp only
      split
      · exact FailsWithin.bind (keeping_patched shelters name _ patch)
          (Member.failsWithin_define object name)
      · apply FailsWithin.bind _ (Member.failsWithin_define object name)
        apply Follows.bind (Action.keeping_edit fun store => .of_encode store patch.fields)
        exact Descriptor.follows_decode shelters.call name
  | aliased source member captured =>
      apply FailsWithin.bind (keeping_aliasedDescriptor object name source member captured)
      intro found
      split
      · exact Member.failsWithin_define object name _
      · exact .throw _
  | code code =>
      exact .of_follows (Follows.bind (shelters.enter _ _) fun _ => Follows.pure _)

end Decorator

private theorem Meaning.failsWithin_sheltering (kept : ObjectId → Prop) [DecidablePred kept]
    (budget : Nat) (hook : Hook) (object : ObjectId) (name : String) :
    FailsWithin (Passage.keeping σ kept)
      ((sheltering kept budget : Meaning σ).install hook object name) := by
  cases budget with
  | zero => exact .throw _
  | succ budget =>
      exact Decorator.failsWithin_install (shelters_sheltering kept budget) object name hook

/-! ### Turns that fail -/

namespace Merge

variable {plan : Plan} {budget : Nat}

private theorem falters_sheltering (kept : ObjectId → Prop) [DecidablePred kept] (budget : Nat)
    (plan : Plan) (name : String) :
    Falters (Passage.keeping σ kept) (.sheltering kept budget) plan name :=
  have shelters := Meaning.shelters_sheltering (σ := σ) kept budget
  { asks := asks_keeping
    assign := Member.failsWithin_assign shelters.call plan.target name
    define := plan.definer.failsWithin_define shelters.call Descriptor.keeping_encode plan.target
      name
    install := fun hook => Meaning.failsWithin_sheltering kept budget hook plan.target name }

/-- A turn that fails has written to none of the objects that user code leaves alone at it,
the destination included. -/
theorem Turn.keeps_of_failed {kept : ObjectId → Prop} [DecidablePred kept] {turn : Turn σ}
    {fault : Fault} {later : World σ}
    (harmless : Harmless kept
      (fun meaning => turn.visit.mix meaning plan turn.name turn.held) budget turn.before)
    (failed : turn.run (.ofBudget budget) plan = (.error fault, later)) :
    turn.before.store.Keeps kept later.store :=
  (falters_sheltering kept budget plan turn.name).mix turn.visit turn.held turn.before fault later
    (harmless.trans failed)

/-! ### The last turn of a merge that fails -/

section Turns

variable (meaning : Meaning σ) (plan : Plan)

def reached (taken : List (Turn σ)) (start : World σ) : World σ :=
  match taken.getLast? with
  | some turn => (turn.run meaning plan).2
  | none => start

structure EndsIn (taken : List (Turn σ)) (fault : Fault) (later : World σ) (done : List (Turn σ))
    (last : Turn σ) : Prop where
  taken : taken = done ++ [last]
  succeeded : ∀ turn ∈ done, ∃ left, (turn.run meaning plan).1 = .ok left
  failed : last.run meaning plan = (.error fault, later)

variable {meaning plan}

private theorem reached_cons (turn : Turn σ) (taken : List (Turn σ)) (start : World σ) :
    reached meaning plan (turn :: taken) start =
      reached meaning plan taken (turn.run meaning plan).2 := by
  cases taken with
  | nil => rfl
  | cons next taken => rw [reached, reached, List.getLast?_cons_cons]; rfl

private theorem reached_append (first second : List (Turn σ)) (start : World σ) :
    reached meaning plan (first ++ second) start =
      reached meaning plan second (reached meaning plan first start) := by
  induction first generalizing start with
  | nil => rfl
  | cons turn first induction => rw [List.cons_append, reached_cons, reached_cons, induction]

theorem reached_congr {β : Type} (view : World σ → β) {taken : List (Turn σ)}
    {first second : World σ} (same : view first = view second) :
    view (reached meaning plan taken first) = view (reached meaning plan taken second) := by
  unfold reached
  split
  · rfl
  · exact same

theorem reached_turnsOfNames (visit : Visit) {names : List String} {held left : List Conflict}
    {world later : World σ}
    (ran : (names.foldlM (fun held name => visit.mix meaning plan name held) held).run world =
      (.ok left, later)) :
    reached meaning plan (turnsOfNames meaning plan visit names held world) world = later ∧
      ∀ turn ∈ turnsOfNames meaning plan visit names held world,
        ∃ left, (turn.run meaning plan).1 = .ok left := by
  induction names generalizing held world with
  | nil =>
      cases ran
      exact ⟨rfl, List.forall_mem_nil _⟩
  | cons name names induction =>
      rw [List.foldlM_cons] at ran
      rcases Action.succeeded_of_bind ran with ⟨between, middle, ranFirst, ranRest⟩
      have turned : Turn.run meaning plan ⟨visit, name, held, world⟩ = (.ok between, middle) :=
        ranFirst
      rcases induction ranRest with ⟨leads, succeeded⟩
      rw [turnsOfNames, turned, reached_cons, turned, List.forall_mem_cons]
      exact ⟨leads, ⟨between, congrArg Prod.fst turned⟩, succeeded⟩

theorem exists_last_of_names (visit : Visit) {names : List String} {held : List Conflict}
    {world later : World σ} {fault : Fault}
    (ran : (names.foldlM (fun held name => visit.mix meaning plan name held) held).run world =
      (.error fault, later)) :
    ∃ done last,
      EndsIn meaning plan (turnsOfNames meaning plan visit names held world) fault later done
        last ∧ last.before = reached meaning plan done world := by
  induction names generalizing held world with
  | nil => cases ran
  | cons name names induction =>
      rw [turnsOfNames]
      rw [List.foldlM_cons, Action.run_bind] at ran
      rcases turned : (visit.mix meaning plan name held).run world with ⟨other | left, between⟩
      · rw [turned] at ran
        cases ran
        have failed : Turn.run meaning plan ⟨visit, name, held, world⟩ = (.error fault, later) :=
          turned
        rw [failed]
        exact ⟨[], _, ⟨rfl, List.forall_mem_nil _, failed⟩, rfl⟩
      · rw [turned] at ran
        have succeeded : Turn.run meaning plan ⟨visit, name, held, world⟩ = (.ok left, between) :=
          turned
        rcases induction ran with ⟨done, last, ends, before⟩
        rw [succeeded]
        refine ⟨_ :: done, last, ⟨congrArg _ ends.taken, ?_, ends.failed⟩, ?_⟩
        · exact List.forall_mem_cons.mpr
            ⟨⟨left, congrArg Prod.fst succeeded⟩, ends.succeeded⟩
        · rw [reached_cons, succeeded]
          exact before

section Sources

variable (evolving : meaning.Evolving)

include evolving

/-- If a merge of valid sources fails, it is at the last turn; until then nothing but the turns
has written to the destination. -/
theorem exists_last_of_sources {index : Nat} {sources : List Value} {held : List Conflict}
    {world later : World σ} {fault : Fault}
    (known : world.store.hasObject plan.target = true)
    (valid : ∀ source ∈ sources, source.isSource = true)
    (ran : (mixSources meaning plan index sources held).run world = (.error fault, later)) :
    ∃ done last,
      EndsIn meaning plan (turns meaning plan index sources held world) fault later done last ∧
        last.before.store.members plan.target =
          (reached meaning plan done world).store.members plan.target := by
  induction sources generalizing index held world with
  | nil => cases ran
  | cons source sources induction =>
      rw [List.forall_mem_cons] at valid
      rcases Visit.exists_of_isSource index valid.1 world.store with ⟨visit, after, starts⟩
      have asked : (Passage.keeping σ fun _ => True).leads world { world with store := after } :=
        Visit.leads_of_start? asks_keeping world starts
      have same : after.members plan.target = world.store.members plan.target :=
        asked.members plan.target known trivial
      have visited := run_mixSource_eq_visit meaning plan index source held world
      rw [starts] at visited
      have taken : turnsOfSource meaning plan index source held world =
          turnsOfNames meaning plan visit (after.enumerableNames visit.table) held
            { world with store := after } := by
        rw [turnsOfSource, starts]
      rw [turns, taken]
      rw [mixSources, Action.run_bind] at ran
      rcases mixed : (mixSource meaning plan index source held).run world with
        ⟨other | left, between⟩
      · rw [mixed] at ran visited
        cases ran
        rcases exists_last_of_names visit visited.symm with ⟨done, last, ends, before⟩
        refine ⟨done, last, by rwa [List.append_nil], ?_⟩
        rw [before]
        exact reached_congr (fun now => now.store.members plan.target) same
      · rw [mixed] at ran visited
        rcases reached_turnsOfNames visit visited.symm with ⟨leads, succeeded⟩
        have evolution := follows_mixSource (respects_evolution evolving plan) index source held
          world
        rw [mixed] at evolution
        rcases induction (evolution.1.extends.object _ known).1 valid.2 ran with
          ⟨done, last, ends, before⟩
        let first := turnsOfNames meaning plan visit (after.enumerableNames visit.table) held
          { world with store := after }
        -- The visit may have begun with making a table, but it left the destination alone.
        have there : between.store.members plan.target =
            (reached meaning plan first world).store.members plan.target := by
          rw [← leads]
          exact reached_congr (fun now => now.store.members plan.target) same
        refine ⟨first ++ done, last, ⟨?_, ?_, ends.failed⟩, ?_⟩
        · rw [List.append_assoc, ← ends.taken]
        · exact List.forall_mem_append.mpr ⟨succeeded, ends.succeeded⟩
        · rw [before, reached_append]
          exact reached_congr (fun now => now.store.members plan.target) there

end Sources

end Turns

end Merge

end TraitComposition
