import TraitComposition.Proofs.Composition.Composing
import TraitComposition.Proofs.Store.Focus

/-!
Reports of conflicts. A composition tells its observer about every conflict that the
merge left, in order, and under the failing policy the first of them is its fault.
-/
namespace TraitComposition

variable {σ : Type}

namespace Store

def reportAll (store : Store) (observer : Observer) (conflicts : List Conflict) : Store :=
  conflicts.foldl (fun store conflict => store.report (.conflict observer conflict)) store

theorem journal_reportAll (observer : Observer) (conflicts : List Conflict) (store : Store) :
    (store.reportAll observer conflicts).journal.toList =
      store.journal.toList ++ conflicts.map (.conflict observer) := by
  induction conflicts generalizing store with
  | nil => simp [reportAll]
  | cons conflict conflicts induction =>
      rw [reportAll, List.foldl_cons, ← reportAll, induction, report, Array.toList_push,
        List.map_cons, List.append_assoc, List.singleton_append]

theorem reportAll_eq (store : Store) (observer : Observer) (conflicts : List Conflict) :
    store.reportAll observer conflicts =
      { store with journal := (store.reportAll observer conflicts).journal } := by
  induction conflicts generalizing store with
  | nil => rfl
  | cons conflict conflicts induction =>
      rw [reportAll, List.foldl_cons, ← reportAll, induction]
      rfl

theorem changesOnly_reportAll (observer : Observer) (conflicts : List Conflict) (store : Store)
    (target : ObjectId) : ChangesOnly target store (store.reportAll observer conflicts) := by
  have extends_ : store.Extends (store.reportAll observer conflicts) :=
    (evolves_reportAll observer conflicts store).extends
  have same := store.reportAll_eq observer conflicts
  apply ChangesOnly.of_objects_eq extends_
  · rw [same]
  · intro type composite found
    rw [same]
    exact found

end Store

namespace Composer

def refusal? (composer : Composer) (conflicts : List Conflict) : Option Fault :=
  match composer.config.conflictPolicy, conflicts with
  | .fail, first :: _ => some (.unresolvedConflict first.member)
  | _, _ => none

def answer {α : Type} (composer : Composer) (conflicts : List Conflict) (item : α) :
    Except Fault α :=
  match composer.refusal? conflicts with
  | some fault => .error fault
  | none => .ok item

theorem answer_nil {α : Type} (composer : Composer) (item : α) :
    composer.answer [] item = .ok item := by
  cases policy : composer.config.conflictPolicy <;> simp [answer, refusal?, policy]

theorem run_report (composer : Composer) (conflicts : List Conflict) (world : World σ) :
    (composer.report conflicts).run world =
      (composer.answer conflicts (),
        { world with store := world.store.reportAll composer.observer conflicts }) := by
  cases policy : composer.config.conflictPolicy <;> cases conflicts <;>
    simp [report, answer, refusal?, policy, Store.reportAll]

theorem run_report_bind {α : Type} (composer : Composer) (conflicts : List Conflict) (item : α)
    (world : World σ) :
    (composer.report conflicts >>= fun _ => pure item).run world =
      (composer.answer conflicts item,
        { world with store := world.store.reportAll composer.observer conflicts }) := by
  rw [Action.run_bind, run_report, answer, answer]
  cases composer.refusal? conflicts <;> rfl

/-- What a composition comes to: the conflicts it reports, the table it makes, and the
type that has the table, unless the composer rejects the conflicts. -/
structure Yields (composer : Composer) (meaning : Meaning σ) (sources : List Value)
    (world : World σ) (conflicts : List Conflict) (prototype : ObjectId) (later : World σ) :
    Prop where
  ran : ∃ type, (composer.compose meaning sources).run world =
      (composer.answer conflicts type, later) ∧
    (composer.answer conflicts type = .ok type →
      ∃ built, later.store.composite? type = some built ∧ built.prototype = prototype)
  reported : later.store.journal.toList =
    world.store.journal.toList ++ conflicts.map (.conflict composer.observer)

/-- Once the table of types is there, nothing but the refusal of conflicts keeps the type
from being entered, and nothing that is there changes any more. -/
theorem yields_of_run_composeTable (meaning : Meaning σ) (composer : Composer)
    (sources : List Value) {world reported : World σ} {conflicts : List Conflict}
    {prototype : ObjectId} (valid : Sources.validate sources 0 = .ok ())
    (table : (composer.composeTable meaning (sources.headD .undefined) sources.tail).run world =
      (composer.answer conflicts prototype, reported))
    (types : reported.store.AllTypes sources)
    (journal : reported.store.journal.toList =
      world.store.journal.toList ++ conflicts.map (.conflict composer.observer)) :
    ∃ later, composer.Yields meaning sources world conflicts prototype later ∧
      ∀ other, Store.ChangesOnly other reported.store later.store := by
  have ran := run_compose meaning composer valid world
  rw [table, answer] at ran
  cases refused : composer.refusal? conflicts with
  | some fault =>
      rw [refused] at ran
      refine ⟨reported, ⟨⟨⟨0⟩, by rw [ran, answer, refused], fun accepted => ?_⟩, journal⟩,
        fun other => .refl other reported.store⟩
      rw [answer, refused] at accepted
      cases accepted
  | none =>
      rw [refused] at ran
      have found := composer.composite?_enterType sources prototype reported.store
      have entered := composer.enterType_of_types prototype types
      refine ⟨{ reported with store := (composer.enterType sources prototype reported.store).2 },
        ⟨⟨(composer.enterType sources prototype reported.store).1, ?_, ?_⟩, ?_⟩, fun other => ?_⟩
      · rw [ran, answer, refused]
      · exact fun _ => ⟨_, found, rfl⟩
      · rw [entered]
        exact journal
      · rw [entered]
        exact .of_addComposite _ _ _ _ other

end Composer

end TraitComposition
