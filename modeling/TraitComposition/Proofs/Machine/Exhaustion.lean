import TraitComposition.Composition
import TraitComposition.Machine
import TraitComposition.Proofs.Action.Running

/-!
What is done without asking the machine. What succeeds on a machine goes the same way on every
machine that does all that the former does. The exhausted machine refuses whatever it is asked
for, so where a composition succeeds on it, no user code was to be run, and it goes the same
way on every machine.
-/
namespace TraitComposition

variable {σ α β : Type}

namespace Action

def UpheldBy (first second : Action σ α) : Prop :=
  ∀ world answer later, first.run world = (.ok answer, later) →
    second.run world = (.ok answer, later)

namespace UpheldBy

theorem refl (action : Action σ α) : UpheldBy action action :=
  fun _ _ _ ran => ran

theorem throw (fault : Fault) (action : Action σ α) :
    UpheldBy (MonadExcept.throw fault) action := by
  intro world answer later ran
  cases ran

theorem bind {first second : Action σ α} {next rest : α → Action σ β}
    (start : UpheldBy first second) (each : ∀ answer, UpheldBy (next answer) (rest answer)) :
    UpheldBy (first >>= next) (second >>= rest) := by
  intro world answer later ran
  rcases succeeded_of_bind ran with ⟨between, reached, ranFirst, ranNext⟩
  rw [run_bind_of_ok _ (start world between reached ranFirst)]
  exact each between reached answer later ranNext

theorem bind_same {first second : Action σ α} (start : UpheldBy first second)
    (next : α → Action σ β) : UpheldBy (first >>= next) (second >>= next) :=
  start.bind fun answer => .refl (next answer)

private theorem naming {first second : Action σ α} (name : String) (start : UpheldBy first second) :
    UpheldBy (Action.naming name first) (Action.naming name second) := by
  intro world answer later ran
  rw [run_naming] at ran ⊢
  rcases reached : first.run world with ⟨fault | found, between⟩
  · rw [reached] at ran
    cases ran
  · rw [reached] at ran
    rw [start world found between reached]
    exact ran

theorem foldlM {next rest : β → α → Action σ β}
    (each : ∀ state item, UpheldBy (next state item) (rest state item)) :
    ∀ (items : List α) (state : β), UpheldBy (items.foldlM next state) (items.foldlM rest state)
  | [], state => .refl (pure state)
  | item :: items, state => by
      rw [List.foldlM_cons, List.foldlM_cons]
      exact (each state item).bind fun reached => foldlM each items reached

theorem forM {next rest : α → Action σ PUnit} (each : ∀ item, UpheldBy (next item) (rest item)) :
    ∀ items : List α, UpheldBy (items.forM next) (items.forM rest)
  | [] => .refl (pure PUnit.unit)
  | item :: items => (each item).bind fun _ => forM each items

end UpheldBy

end Action

open TraitComposition.Action (UpheldBy)

structure Meaning.UpheldBy (first second : Meaning σ) : Prop where
  call : ∀ procedure receiver arguments, Action.UpheldBy
    (first.call procedure receiver arguments) (second.call procedure receiver arguments)
  install : ∀ hook target name,
    Action.UpheldBy (first.install hook target name) (second.install hook target name)
  enter : ∀ code entry, Action.UpheldBy (first.enter code entry) (second.enter code entry)

theorem Meaning.upheldBy_exhausted (meaning : Meaning σ) : UpheldBy .exhausted meaning where
  call _ _ _ := .throw _ _
  install _ _ _ := .throw _ _
  enter _ _ := .throw _ _

section Machines

variable {first second : Meaning σ} (upheld : first.UpheldBy second)

include upheld

private theorem Member.upheld_read (object : ObjectId) (name : String) :
    UpheldBy (read first object name) (read second object name) := by
  apply UpheldBy.bind (.refl _)
  intro store
  split
  · exact .refl _
  · exact .refl _
  · exact .refl _
  · exact .naming name (upheld.call _ _ _)

theorem Member.upheld_assign (object : ObjectId) (name : String) (value : Value) :
    UpheldBy (assign first object name value) (assign second object name value) := by
  apply UpheldBy.bind (.refl _)
  intro store
  split
  · exact .refl _
  · split
    · exact .bind_same (.naming name (upheld.call _ _ _)) _
    · exact .refl _
    · exact .refl _
    · exact .refl _

theorem Definer.upheld_ofValue (value : Value) :
    UpheldBy (ofValue first value) (ofValue second value) := by
  unfold ofValue
  split
  · exact .bind_same (Member.upheld_read upheld _ _) _
  · exact .refl _
  · exact .refl _

private theorem Definer.upheld_define (definer : Definer) (target : ObjectId) (name : String)
    (descriptor : Descriptor) :
    UpheldBy (definer.define first target name descriptor)
      (definer.define second target name descriptor) := by
  cases definer with
  | raw => exact .refl _
  | custom procedure =>
      exact .bind (.refl _) fun fields => .bind_same (.naming name (upheld.call _ _ _)) _

/-! ### Descriptors -/

namespace Descriptor

private theorem upheld_readField (object : ObjectId) (key : String) :
    UpheldBy (readField first object key) (readField second object key) := by
  apply UpheldBy.bind (.refl _)
  intro store
  split
  · exact .bind_same (Member.upheld_read upheld object key) _
  · exact .refl _

theorem upheld_decode (member : String) (object : ObjectId) :
    UpheldBy (decode first member object) (decode second member object) := by
  have field := upheld_readField upheld object
  have flag (key : String) : UpheldBy (readFlag first object key) (readFlag second object key) :=
    (field key).bind_same _
  have procedure (key : String) :
      UpheldBy (readProcedure first member object key)
        (readProcedure second member object key) :=
    (field key).bind_same _
  apply (field _).bind
  intro value
  apply (flag _).bind
  intro writable
  apply (procedure _).bind
  intro getter
  apply (procedure _).bind
  intro setter
  apply UpheldBy.bind (.refl _)
  intro shape
  apply (flag _).bind
  intro enumerable
  exact (flag _).bind_same _

end Descriptor

/-! ### The merge -/

namespace Merge

variable (plan : Plan)

private theorem upheld_put (name : String) (descriptor : Descriptor) :
    UpheldBy (put first plan name descriptor) (put second plan name descriptor) := by
  unfold put
  split
  · apply UpheldBy.bind (.refl _)
    intro store
    split
    · exact Member.upheld_assign upheld _ _ _
    · exact plan.definer.upheld_define upheld _ _ _
  · exact plan.definer.upheld_define upheld _ _ _

private theorem upheld_mixMethod (index : Nat) (table : ObjectId) (ownChain : List ObjectId)
    (name : String) (held : List Conflict) :
    UpheldBy (mixMethod first plan index table ownChain name held)
      (mixMethod second plan index table ownChain name held) := by
  apply UpheldBy.bind (.refl _)
  intro store
  split
  · exact .refl _
  · next owner descriptor found =>
    have copied (left : List Conflict) := (upheld_put upheld plan name descriptor).bind_same
      fun _ => pure left
    dsimp only
    split
    · exact copied held
    · split
      · exact .bind_same (upheld.install _ _ _) _
      · apply UpheldBy.bind (.refl _)
        intro resolution
        cases resolution with
        | incoming => exact copied held
        | conflict existing => exact copied _
        | keepDestination =>
            apply UpheldBy.bind (.refl _)
            intro store
            split
            · exact .bind_same (upheld_put upheld plan name _) _
            · exact .refl _

theorem upheld_mixMember (table : ObjectId) (name : String) (held : List Conflict) :
    UpheldBy (mixMember first plan table name held)
      (mixMember second plan table name held) := by
  apply UpheldBy.bind (.refl _)
  intro store
  split
  · exact .refl _
  · next owner descriptor found =>
    have copied (left : List Conflict) := (upheld_put upheld plan name descriptor).bind_same
      fun _ => pure left
    dsimp only
    split
    · exact copied _
    · split
      · exact .bind_same (upheld.install _ _ _) _
      · split
        · exact .refl _
        · exact copied _

private theorem upheld_mixSource (index : Nat) (source : Value) (held : List Conflict) :
    UpheldBy (mixSource first plan index source held)
      (mixSource second plan index source held) := by
  cases source with
  | procedure procedure =>
      apply UpheldBy.bind (.refl _)
      intro table
      apply UpheldBy.bind (.refl _)
      intro ownChain
      apply UpheldBy.bind (.refl _)
      intro store
      exact .foldlM (fun held name => upheld_mixMethod upheld plan index table ownChain name held)
        _ held
  | object table =>
      apply UpheldBy.bind (.refl _)
      intro store
      exact .foldlM (fun held name => upheld_mixMember upheld plan table name held) _ held
  | undefined | null | boolean | number | text | list => exact .throw _ _

theorem upheld_mixSources :
    ∀ (index : Nat) (sources : List Value) (held : List Conflict),
      UpheldBy (mixSources first plan index sources held)
        (mixSources second plan index sources held)
  | _, [], held => .refl (pure held)
  | index, source :: sources, held =>
      (upheld_mixSource upheld plan index source held).bind fun left =>
        upheld_mixSources (index + 1) sources left

end Merge

theorem Meaning.UpheldBy.mixin (target : ObjectId) (sources : List Value) (definer : Definer) :
    Action.UpheldBy (mixin first target sources definer) (mixin second target sources definer) :=
  Merge.upheld_mixSources upheld _ 0 sources []

end Machines

variable (meaning : Meaning σ)

theorem upheld_mixin (target : ObjectId) (sources : List Value) (definer : Definer) :
    UpheldBy (mixin .exhausted target sources definer) (mixin meaning target sources definer) :=
  meaning.upheldBy_exhausted.mixin target sources definer

/-! ### The composition -/

section Composition

variable {first second : Meaning σ} (upheld : first.UpheldBy second) (composer : Composer)

include upheld

private theorem Meaning.UpheldBy.composeTable (base : Value) (sources : List Value) :
    Action.UpheldBy (composer.composeTable first base sources)
      (composer.composeTable second base sources) := by
  unfold Composer.composeTable
  split
  · exact .refl _
  · apply Action.UpheldBy.bind (.refl _)
    intro target
    apply Action.UpheldBy.bind (Definer.upheld_ofValue upheld base)
    intro definer
    exact .bind_same (upheld.mixin target sources definer) _

theorem Meaning.UpheldBy.compose (sources : List Value) :
    Action.UpheldBy (composer.compose first sources) (composer.compose second sources) := by
  apply Action.UpheldBy.bind (.refl _)
  intro valid
  exact .bind_same (upheld.composeTable composer _ _) _

theorem Meaning.UpheldBy.mixinInto (target : ObjectId) (sources : List Value) :
    Action.UpheldBy (composer.mixinInto first target sources)
      (composer.mixinInto second target sources) := by
  apply Action.UpheldBy.bind (.refl _)
  intro valid
  apply Action.UpheldBy.bind (Definer.upheld_ofValue upheld (.object target))
  intro definer
  exact .bind_same (upheld.mixin target sources definer) _

end Composition

theorem Composer.upheld_compose (composer : Composer) (sources : List Value) :
    UpheldBy (composer.compose .exhausted sources) (composer.compose meaning sources) :=
  meaning.upheldBy_exhausted.compose composer sources

end TraitComposition
