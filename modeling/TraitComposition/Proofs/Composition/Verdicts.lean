import TraitComposition.Proofs.Composition.Reporting
import TraitComposition.Proofs.Machine.Admission
import TraitComposition.Proofs.Merge.Conflicts

/-!
Verdicts on conflicts. A composer takes no part in the merge and is only told what it left, so
the failing policy does what the warning one does up to that point, and then rejects what the
warning policy goes on with.
-/
namespace TraitComposition

variable {σ : Type}

open TraitComposition.Action (Follows UpheldBy succeeded_of_bind)

def Composer.under (composer : Composer) (policy : ConflictPolicy) : Composer :=
  { composer with config := { composer.config with conflictPolicy := policy } }

private theorem Composer.report_nil (composer : Composer) :
    (composer.report [] : Action σ Unit) = pure () := by
  unfold report
  cases composer.config.conflictPolicy <;> rfl

inductive MergeCall where
  | compose (sources : List Value)
  | create (base : Value) (sources : List Value)
  | mixinInto (target : ObjectId) (sources : List Value)

namespace MergeCall

def Answer : MergeCall → Type
  | compose _ => ProcedureId
  | create .. | mixinInto .. => ObjectId

def perform (composer : Composer) (meaning : Meaning σ) : (call : MergeCall) → Action σ call.Answer
  | compose sources => composer.compose meaning sources
  | create base sources => composer.create meaning base sources
  | mixinInto target sources => composer.mixinInto meaning target sources

/-! ### Before and after the verdict

A call merges its sources into a target and leaves conflicts. A composer judges them, and the call
goes on with the target once they are accepted. -/

def mergeInto (meaning : Meaning σ) (base : Value) (sources : List Value) (target : ObjectId) :
    Action σ (ObjectId × List Conflict) := do
  let definer ← Definer.ofValue meaning base
  let conflicts ← mixin meaning target sources definer
  return (target, conflicts)

def mergeOver (meaning : Meaning σ) (base : Value) (sources : List Value) :
    Action σ (ObjectId × List Conflict) := do
  let target ← Sources.delegate base
  mergeInto meaning base sources target

def mergeTable (meaning : Meaning σ) (base : Value) (sources : List Value) :
    Action σ (ObjectId × List Conflict) :=
  match base, sources with
  | .object table, [] => return (table, [])
  | _, _ => mergeOver meaning base sources

/-- What the call does before a composer hears of it: the answer is the object that was merged
into, and the conflicts that are left. -/
def merge (meaning : Meaning σ) : MergeCall → Action σ (ObjectId × List Conflict)
  | compose sources => do
      Action.ofExcept (Sources.validate sources 0)
      mergeTable meaning (sources.headD .undefined) sources.tail
  | create base sources => do
      Action.ofExcept (Sources.validate [base] 0)
      Action.ofExcept (Sources.validate sources 1)
      mergeOver meaning base sources
  | mixinInto target sources => do
      Action.ofExcept (Sources.validate sources 1)
      mergeInto meaning (.object target) sources target

def conclude (composer : Composer) (meaning : Meaning σ) :
    (call : MergeCall) → ObjectId → Action σ call.Answer
  | compose sources, target => Action.edit (composer.enterType sources target)
  | create base sources, target => Composer.runInitializers meaning (base :: sources) target
  | mixinInto .., target => return target

private theorem composeTable_eq (composer : Composer) (meaning : Meaning σ) (base : Value)
    (sources : List Value) :
    composer.composeTable meaning base sources = (do
      let (target, conflicts) ← mergeTable meaning base sources
      composer.report conflicts
      return target) := by
  unfold Composer.composeTable mergeTable
  split
  · simp only [pure_bind, Composer.report_nil]
  · simp only [mergeOver, mergeInto, bind_assoc, pure_bind]

theorem perform_eq (call : MergeCall) (composer : Composer) (meaning : Meaning σ) :
    call.perform composer meaning = (do
      let (target, conflicts) ← call.merge meaning
      composer.report conflicts
      call.conclude composer meaning target) := by
  cases call with
  | compose sources =>
      rw [perform, Composer.compose, composeTable_eq, merge]
      simp only [bind_assoc, pure_bind]
      rfl
  | create base sources =>
      rw [perform, Composer.create, merge]
      simp only [mergeOver, mergeInto, bind_assoc, pure_bind]
      rfl
  | mixinInto target sources =>
      rw [perform, Composer.mixinInto, merge]
      simp only [mergeInto, bind_assoc, pure_bind]
      rfl

variable {call : MergeCall} {meaning : Meaning σ} {world later merged : World σ} {fault : Fault}
  {target : ObjectId} {conflicts : List Conflict}

private theorem run_perform_of_failed (composer : Composer)
    (failed : (call.merge meaning).run world = (.error fault, later)) :
    (call.perform composer meaning).run world = (.error fault, later) := by
  rw [perform_eq, Action.run_bind_of_error _ failed]

theorem run_perform_of_merged (composer : Composer)
    (mixed : (call.merge meaning).run world = (.ok (target, conflicts), merged)) :
    (call.perform composer meaning).run world =
      match composer.refusal? conflicts with
      | some fault =>
          (.error fault,
            { merged with store := merged.store.reportAll composer.observer conflicts })
      | none => (call.conclude composer meaning target).run
          { merged with store := merged.store.reportAll composer.observer conflicts } := by
  rw [perform_eq, Action.run_bind_of_ok _ mixed]
  change (composer.report conflicts >>= _).run merged = _
  rw [Action.run_bind, Composer.run_report, Composer.answer]
  cases composer.refusal? conflicts <;> rfl

end MergeCall

/-! ### Silence -/

namespace Passage

def silence (σ : Type) : Passage σ where
  leads before after := after.store.journal = before.store.journal
  refl _ := rfl
  trans start rest := rest.trans start

private theorem bearsLibrary_silence : (silence σ).BearsLibrary where
  quiet change := change.journal
  procedure _ _ := rfl
  build enters weave := weave.follows_build enters fun _ _ _ => rfl
  standalone enters _ :=
    Follows.bind (Layer.follows_weave enters (fun _ _ => rfl) _ _)
      fun _ => Follows.bind (fun _ => rfl) fun _ => Follows.pure _

end Passage

namespace MergeCall

section Following

variable {passage : Passage σ} (bears : passage.BearsLibrary) {meaning : Meaning σ}
  (within : meaning.Within passage)

include bears within

private theorem follows_mergeInto (base : Value) (sources : List Value) (target : ObjectId) :
    Follows passage (mergeInto meaning base sources target) :=
  Follows.bind (Passage.BearsLibrary.follows_definerOfValue within base) fun definer =>
    Follows.bind (bears.follows_mixin within target sources definer) fun _ => Follows.pure _

private theorem follows_mergeOver (base : Value) (sources : List Value) :
    Follows passage (mergeOver meaning base sources) :=
  Follows.bind (bears.follows_delegate base) fun _ => follows_mergeInto bears within base sources _

private theorem follows_merge (call : MergeCall) : Follows passage (call.merge meaning) := by
  cases call with
  | compose sources =>
      apply Follows.bind (Follows.ofExcept _)
      intro _
      unfold mergeTable
      split
      · exact Follows.pure _
      · exact follows_mergeOver bears within _ _
  | create base sources =>
      exact Follows.bind (Follows.ofExcept _) fun _ =>
        Follows.bind (Follows.ofExcept _) fun _ => follows_mergeOver bears within base sources
  | mixinInto target sources =>
      exact Follows.bind (Follows.ofExcept _) fun _ => follows_mergeInto bears within _ sources _

end Following

theorem journal_of_merge (call : MergeCall) {budget : Nat} {world : World σ}
    (unasked : Unstopped (fun _ => false) call.merge budget world) :
    ((call.merge (.ofBudget budget)).run world).2.store.journal = world.store.journal := by
  have within : (Meaning.admitting (fun _ => false) budget).Within (Passage.silence σ) := by
    refine Meaning.within_admitting Passage.bearsLibrary_silence (fun _ _ => rfl) (fun _ _ => rfl)
      (fun _ _ admitted => ?_) budget
    cases admitted
  have silent := call.follows_merge Passage.bearsLibrary_silence within world
  rw [unasked] at silent
  exact silent

theorem upheld_merge (call : MergeCall) (meaning : Meaning σ) :
    UpheldBy (call.merge .exhausted) (call.merge meaning) := by
  have merging (base : Value) (sources : List Value) (target : ObjectId) :
      UpheldBy (mergeInto .exhausted base sources target)
        (mergeInto meaning base sources target) :=
    (Definer.upheld_ofValue meaning.upheldBy_exhausted base).bind fun definer =>
      .bind_same (upheld_mixin meaning target sources definer) _
  have delegating (base : Value) (sources : List Value) :
      UpheldBy (mergeOver .exhausted base sources) (mergeOver meaning base sources) :=
    .bind (.refl _) fun target => merging base sources target
  cases call with
  | compose sources =>
      apply UpheldBy.bind (.refl _)
      intro valid
      unfold mergeTable
      split
      · exact .refl _
      · exact delegating _ _
  | create base sources =>
      exact .bind (.refl _) fun _ => .bind (.refl _) fun _ => delegating base sources
  | mixinInto target sources => exact .bind (.refl _) fun _ => merging _ sources target

/-! ### Conflicts -/

section Conflicts

variable {meaning : Meaning σ} {world merged : World σ} {target : ObjectId}
  {conflicts : List Conflict}

private theorem nodup_of_mergeInto {base : Value} {sources : List Value} {into : ObjectId}
    (mixed : (mergeInto meaning base sources into).run world = (.ok (target, conflicts), merged)) :
    (conflicts.map Conflict.member).Nodup := by
  rcases succeeded_of_bind mixed with ⟨_, _, _, mixed⟩
  rcases succeeded_of_bind mixed with ⟨_, _, ran, answered⟩
  cases answered
  refine Merge.nodup_of_mixSources ?_ ran
  exact List.nodup_nil

private theorem eq_of_mergeInto {base : Value} {sources : List Value} {into : ObjectId}
    (mixed : (mergeInto meaning base sources into).run world = (.ok (target, conflicts), merged)) :
    into = target := by
  rcases succeeded_of_bind mixed with ⟨_, _, _, mixed⟩
  rcases succeeded_of_bind mixed with ⟨_, _, _, answered⟩
  exact (Prod.mk.inj (Except.ok.inj (Prod.mk.inj answered).1)).1

private theorem nodup_of_mergeOver {base : Value} {sources : List Value}
    (mixed : (mergeOver meaning base sources).run world = (.ok (target, conflicts), merged)) :
    (conflicts.map Conflict.member).Nodup := by
  rcases succeeded_of_bind mixed with ⟨_, _, _, mixed⟩
  exact nodup_of_mergeInto mixed

theorem nodup_of_merge {call : MergeCall}
    (mixed : (call.merge meaning).run world = (.ok (target, conflicts), merged)) :
    (conflicts.map Conflict.member).Nodup := by
  cases call with
  | compose sources =>
      rcases succeeded_of_bind mixed with ⟨_, _, _, mixed⟩
      unfold mergeTable at mixed
      split at mixed
      · cases mixed
        exact List.nodup_nil
      · exact nodup_of_mergeOver mixed
  | create base sources =>
      rcases succeeded_of_bind mixed with ⟨_, _, _, mixed⟩
      rcases succeeded_of_bind mixed with ⟨_, _, _, mixed⟩
      exact nodup_of_mergeOver mixed
  | mixinInto into sources =>
      rcases succeeded_of_bind mixed with ⟨_, _, _, mixed⟩
      exact nodup_of_mergeInto mixed

end Conflicts

/-! ### Verdicts -/

/-- Whether a call that left no conflicts goes on alike under both policies: they make the same
type but for the composer it keeps, run the same initializers, or answer with the object. -/
inductive GoesOnAlike (composer : Composer) (meaning : Meaning σ) (world : World σ)
    (target : ObjectId) (merged : World σ) : MergeCall → Prop
  | compose {sources : List Value} {type : ProcedureId} {types : Array Composite}
      {built : Composite} {warned strict : World σ}
      (warns : ((compose sources).perform (composer.under .warn) meaning).run world =
        (.ok type, warned))
      (fails : ((compose sources).perform (composer.under .fail) meaning).run world =
        (.ok type, strict))
      (prototype : built.prototype = target)
      (made : warned.store.composite? type = some built)
      (madeStrict : strict.store.composite? type =
        some { built with composer := composer.under .fail })
      (last : warned.store.composites = types.push built)
      (same : strict = { warned with store := { warned.store with
        composites := types.push { built with composer := composer.under .fail } } }) :
      GoesOnAlike composer meaning world target merged (compose sources)
  | create {base : Value} {sources : List Value}
      (both : ∀ policy, ((create base sources).perform (composer.under policy) meaning).run world =
        (Composer.runInitializers meaning (base :: sources) target).run merged) :
      GoesOnAlike composer meaning world target merged (create base sources)
  | mixinInto {sources : List Value}
      (both : ∀ policy,
        ((mixinInto target sources).perform (composer.under policy) meaning).run world =
          (.ok target, merged)) :
      GoesOnAlike composer meaning world target merged (mixinInto target sources)

inductive Verdicts (call : MergeCall) (composer : Composer) (meaning : Meaning σ)
    (world : World σ) : Prop
  /-- The call is rejected or the merge fails. Nobody is told anything. -/
  | failed {fault : Fault} {later : World σ}
      (merge : (call.merge meaning).run world = (.error fault, later))
      (silent : later.store.journal = world.store.journal)
      (both : ∀ policy, (call.perform (composer.under policy) meaning).run world =
        (.error fault, later))
  /-- Conflicts are left. The observer is told of each of them once, and then the strict composer
  rejects the first of them, where the other goes on. -/
  | conflicting {target : ObjectId} {first : Conflict} {rest : List Conflict}
      {merged reported : World σ}
      (merge : (call.merge meaning).run world = (.ok (target, first :: rest), merged))
      (told : reported.store.journal.toList =
        world.store.journal.toList ++ (first :: rest).map (.conflict composer.observer))
      (once : ((first :: rest).map Conflict.member).Nodup)
      (only : reported =
        { merged with store := { merged.store with journal := reported.store.journal } })
      (warns : (call.perform (composer.under .warn) meaning).run world =
        (call.conclude (composer.under .warn) meaning target).run reported)
      (fails : (call.perform (composer.under .fail) meaning).run world =
        (.error (.unresolvedConflict first.member), reported))
  /-- No conflicts are left, and nobody is told anything. -/
  | agreed {target : ObjectId} {merged : World σ}
      (merge : (call.merge meaning).run world = (.ok (target, []), merged))
      (silent : merged.store.journal = world.store.journal)
      (alike : GoesOnAlike composer meaning world target merged call)

variable {call : MergeCall} {meaning : Meaning σ} {world merged : World σ} {target : ObjectId}

theorem run_perform_of_agreed
    (mixed : (call.merge meaning).run world = (.ok (target, []), merged)) (composer : Composer) :
    (call.perform composer meaning).run world =
      (call.conclude composer meaning target).run merged := by
  have accepted : composer.refusal? [] = none := by
    unfold Composer.refusal?
    cases composer.config.conflictPolicy <;> rfl
  rw [run_perform_of_merged composer mixed, accepted]
  rfl

private theorem goesOnAlike_of_agreed (composer : Composer)
    (mixed : (call.merge meaning).run world = (.ok (target, []), merged)) :
    GoesOnAlike composer meaning world target merged call := by
  have runs := run_perform_of_agreed mixed
  cases call with
  | compose sources =>
      exact .compose (runs _) (runs _) rfl
        ((composer.under .warn).composite?_enterType sources target merged.store)
        ((composer.under .fail).composite?_enterType sources target merged.store) rfl rfl
  | create base sources => exact .create fun policy => runs (composer.under policy)
  | mixinInto into sources =>
      rcases succeeded_of_bind mixed with ⟨_, _, _, mixed⟩
      obtain rfl := eq_of_mergeInto mixed
      exact .mixinInto fun policy => runs (composer.under policy)

/-- The failing policy is the warning one and a verdict, as long as no user code that runs in the
merge asks for anything: both merge alike and tell their observer of the same conflicts, each
once. The failing one then rejects the first of them, and if there is none, both go on alike. -/
theorem verdicts (call : MergeCall) (composer : Composer) {budget : Nat} {world : World σ}
    (unasked : Unstopped (fun _ => false) call.merge budget world) :
    call.Verdicts composer (.ofBudget budget) world := by
  have silent := call.journal_of_merge unasked
  rcases ran : (call.merge (.ofBudget budget)).run world with
    ⟨fault | ⟨target, conflicts⟩, merged⟩
  · rw [ran] at silent
    exact .failed ran silent fun policy => run_perform_of_failed _ ran
  · rw [ran] at silent
    cases conflicts with
    | nil => exact .agreed ran silent (goesOnAlike_of_agreed composer ran)
    | cons first rest =>
        -- The observer, and so the world after the report, is the same under both policies.
        refine .conflicting ran ?_ (nodup_of_merge ran) ?_
          (run_perform_of_merged (composer.under .warn) ran)
          (run_perform_of_merged (composer.under .fail) ran)
        · rw [← silent]
          exact Store.journal_reportAll composer.observer (first :: rest) merged.store
        · rw [← Store.reportAll_eq]

/-- A conflict between a table and a type is told, and rejected by the failing policy only. -/
theorem verdicts_of_conflict :
    (mixinInto ⟨0⟩ [.object ⟨2⟩, .procedure ⟨3⟩]).Verdicts {} (.ofBudget 1) clashing ∧
      ((mixinInto ⟨0⟩ [.object ⟨2⟩, .procedure ⟨3⟩]).perform {} (.ofBudget 1)).run clashing =
        (.ok ⟨0⟩, (((mixinInto ⟨0⟩ [.object ⟨2⟩, .procedure ⟨3⟩]).perform {}
          (.ofBudget 1)).run clashing).2) ∧
      ((mixinInto ⟨0⟩ [.object ⟨2⟩, .procedure ⟨3⟩]).perform (({} : Composer).under .fail)
        (.ofBudget 1)).run clashing = (.error (.unresolvedConflict "n"),
          (((mixinInto ⟨0⟩ [.object ⟨2⟩, .procedure ⟨3⟩]).perform {}
            (.ofBudget 1)).run clashing).2) := by
  have ran := Action.run_eq_of_toOption
    (merge .exhausted (mixinInto ⟨0⟩ [.object ⟨2⟩, .procedure ⟨3⟩])) clashing
    (⟨0⟩, [⟨"n", ⟨1⟩, ⟨2⟩⟩]) (by decide +kernel)
  have mixed := upheld_merge _ (.ofBudget 1) clashing _ _ ran
  refine ⟨verdicts _ _ (unstopped_of_upheld (upheld_merge _) ran 1), ?_, ?_⟩
  · rw [run_perform_of_merged {} mixed]
    rfl
  · rw [run_perform_of_merged _ mixed, run_perform_of_merged {} mixed]
    rfl

def throwing : World Unit where
  store := {
    objects := #[{ members := MemberTable.empty.insert "n" (.ofValue .null) }]
    procedures := #[{ body := .required }, { body := .code ⟨0⟩ }] }
  codes := #[fun _ => .done (.error (.thrown "no"))]
  state := ()

/-- No conflict is left, and still neither policy lets the creation succeed: an initializer
throws. -/
theorem create_fails_without_conflict :
    Unstopped (fun _ => false) (create (.procedure ⟨1⟩) [.object ⟨0⟩]).merge 2 throwing ∧
      (∃ merged, ((create (.procedure ⟨1⟩) [.object ⟨0⟩]).merge (.ofBudget 2)).run throwing =
        (.ok (⟨2⟩, []), merged)) ∧
      ∀ policy, ∃ later,
        ((create (.procedure ⟨1⟩) [.object ⟨0⟩]).perform (({} : Composer).under policy)
          (.ofBudget 2)).run throwing = (.error (.thrown "no"), later) := by
  have ran := Action.run_eq_of_toOption
    (merge .exhausted (create (.procedure ⟨1⟩) [.object ⟨0⟩])) throwing (⟨2⟩, [])
    (by decide +kernel)
  refine ⟨unstopped_of_upheld (upheld_merge _) ran 2,
    ⟨_, upheld_merge _ (.ofBudget 2) throwing _ _ ran⟩, ?_⟩
  intro policy
  cases policy <;> exact ⟨_, Action.run_eq_of_error _ _ _ rfl⟩

end MergeCall

end TraitComposition
