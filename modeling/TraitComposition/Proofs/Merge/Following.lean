import TraitComposition.Merge
import TraitComposition.Proofs.Action.Passage

/-!
What a merge respects. All that merging a member does to a world is to ask procedures for
their tables, to assign or define the member on the destination, and to install a hook
under its name; a passage that these respect, the whole merge respects.
-/
namespace TraitComposition.Merge

open TraitComposition.Action (Follows)

variable {σ : Type} {passage : Passage σ}

/-! ### Asking for tables -/

def Asks (passage : Passage σ) : Prop :=
  ∀ procedure, Follows passage (Action.edit (·.prototypeOf procedure) : Action σ ObjectId)

private theorem Asks.sourcePrototypes (asks : Asks passage) (source : Value) :
    Follows passage (Action.edit (Store.sourcePrototypes source) : Action σ (List ObjectId)) := by
  intro world
  rw [Action.run_edit, Store.sourcePrototypes.eq_def]
  split
  · split
    · exact passage.refl world
    · exact asks _ world
  · exact passage.refl world
  · exact passage.refl world

private theorem Asks.allPrototypes (asks : Asks passage) :
    ∀ sources : List Value,
      Follows passage (Action.edit (Store.allPrototypes sources) : Action σ (List ObjectId))
  | [], world => passage.refl world
  | source :: sources, world =>
      passage.trans (asks.sourcePrototypes source world) (asks.allPrototypes sources _)

theorem Asks.prototypes (asks : Asks passage) (sources : List Value) :
    Follows passage (Action.edit (Store.prototypes sources) : Action σ (List ObjectId)) :=
  asks.allPrototypes sources

theorem asks_within (region : Store.Region) : Asks (Passage.within σ region) :=
  fun procedure world => (Store.ChangesWithin.of_prototypeOf world.store procedure).of_nowhere

/-! ### Members -/

variable {meaning : Meaning σ} {plan : Plan}

structure Respects (passage : Passage σ) (meaning : Meaning σ) (plan : Plan)
    (name : String) : Prop where
  asks : Asks passage
  assign : ∀ value, Follows passage (Member.assign meaning plan.target name value)
  define : ∀ descriptor, Follows passage (plan.definer.define meaning plan.target name descriptor)
  install : ∀ hook, Follows passage (meaning.install hook plan.target name)

theorem follows_weigh (asks : Asks passage) (index : Nat) (name : String) (own : Bool)
    (incoming : ProcedureId) (ownChain : List ObjectId) (current : Option Value) :
    Follows passage (weigh plan index name own incoming ownChain current) := by
  unfold weigh
  split
  · split
    · exact Follows.pure _
    · apply Follows.bind (asks.prototypes _)
      intro earlier
      apply Follows.bind (asks.prototypes _)
      intro throughThis
      exact Follows.bind Follows.getStore fun store => Follows.pure _
  · exact Follows.pure _

namespace Respects

variable {name : String} (respects : Respects passage meaning plan name)

include respects

theorem put (descriptor : Descriptor) : Follows passage (put meaning plan name descriptor) := by
  unfold Merge.put
  split
  · apply Follows.bind Follows.getStore
    intro store
    split
    · exact respects.assign _
    · exact respects.define descriptor
  · exact respects.define descriptor

theorem mixMethod (index : Nat) (table : ObjectId) (ownChain : List ObjectId)
    (held : List Conflict) :
    Follows passage (mixMethod meaning plan index table ownChain name held) := by
  apply Follows.bind Follows.getStore
  intro store
  split
  · exact Follows.pure _
  · next owner descriptor found =>
    dsimp only
    split
    · exact Follows.bind (respects.put descriptor) fun _ => Follows.pure _
    · next incoming method =>
      split
      · exact Follows.bind (respects.install _) fun _ => Follows.pure _
      · apply Follows.bind (follows_weigh respects.asks _ _ _ _ _ _)
        intro resolution
        cases resolution with
        | keepDestination =>
          apply Follows.bind Follows.getStore
          intro store
          split
          · exact Follows.bind (respects.put _) fun _ => Follows.pure _
          · exact Follows.pure _
        | conflict existing =>
          exact Follows.bind (respects.put descriptor) fun _ => Follows.pure _
        | incoming =>
          exact Follows.bind (respects.put descriptor) fun _ => Follows.pure _

theorem mixMember (table : ObjectId) (held : List Conflict) :
    Follows passage (mixMember meaning plan table name held) := by
  apply Follows.bind Follows.getStore
  intro store
  split
  · exact Follows.pure _
  · next owner descriptor found =>
    dsimp only
    generalize (if owner = table then settleConflict name held else held) = settled
    split
    · exact Follows.bind (respects.put descriptor) fun _ => Follows.pure _
    · next method =>
      split
      · exact Follows.bind (respects.install _) fun _ => Follows.pure _
      · split
        · exact Follows.pure _
        · exact Follows.bind (respects.put descriptor) fun _ => Follows.pure _

end Respects

/-! ### Sources -/

section Sources

variable (respects : ∀ name, Respects passage meaning plan name)

include respects

theorem follows_mixSource (index : Nat) (source : Value) (held : List Conflict) :
    Follows passage (mixSource meaning plan index source held) := by
  have asks := (respects "").asks
  unfold mixSource
  split
  · apply Follows.bind (asks _)
    intro table
    apply Follows.bind (asks.prototypes _)
    intro ownChain
    apply Follows.bind Follows.getStore
    intro store
    exact Follows.foldlM (fun held name => (respects name).mixMethod index table ownChain held)
      _ held
  · next table =>
    apply Follows.bind Follows.getStore
    intro store
    exact Follows.foldlM (fun held name => (respects name).mixMember table held) _ held
  · exact Follows.throw _

theorem follows_mixSources :
    ∀ (index : Nat) (sources : List Value) (held : List Conflict),
      Follows passage (mixSources meaning plan index sources held)
  | _, [], _ => Follows.pure _
  | index, source :: sources, held =>
      Follows.bind (follows_mixSource respects index source held) fun held =>
        follows_mixSources (index + 1) sources held

end Sources

end TraitComposition.Merge
