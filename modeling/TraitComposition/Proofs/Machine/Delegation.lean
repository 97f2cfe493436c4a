import TraitComposition.Proofs.Machine.Evolution
import TraitComposition.Proofs.Store.Walks

/-!
Delegation in reachable worlds. Whatever programs ask for, and wherever they are cut short,
objects are only made to delegate to older ones and keep delegating to what they do. So no
object delegates to itself, however indirectly, and walks along delegation end.
-/
namespace TraitComposition

variable {σ : Type}

/-! ### Machines that break off -/

/-- Whether a machine does what the whole one does, except that at any depth a call, an install or
an entry of user code may fail before it has done anything. So a program on it can come to an end
in any world in which a whole run comes to one of these. -/
inductive Meaning.BreaksOff : Meaning σ → Prop
  | exhausted : BreaksOff .exhausted
  | nested {meaning below : Meaning σ} (inner : BreaksOff below)
      (call : ∀ procedure receiver arguments world,
        (meaning.call procedure receiver arguments).run world =
            (below.step.call procedure receiver arguments).run world ∨
          ∃ fault, (meaning.call procedure receiver arguments).run world = (.error fault, world))
      (install : ∀ hook target name world,
        (meaning.install hook target name).run world =
            (below.step.install hook target name).run world ∨
          ∃ fault, (meaning.install hook target name).run world = (.error fault, world))
      (enter : ∀ code entry world,
        (meaning.enter code entry).run world = (below.step.enter code entry).run world ∨
          ∃ fault, (meaning.enter code entry).run world = (.error fault, world)) :
      BreaksOff meaning

namespace Meaning.BreaksOff

theorem ofBudget (budget : Nat) : (Meaning.ofBudget budget : Meaning σ).BreaksOff := by
  induction budget with
  | zero => exact .exhausted
  | succ budget induction =>
      exact .nested induction (fun _ _ _ _ => .inl rfl) (fun _ _ _ _ => .inl rfl)
        fun _ _ _ => .inl rfl

theorem within {passage : Passage σ} {admits : Request → Prop} (bears : passage.Bears admits)
    (trusts : passage.Trusts admits) {meaning : Meaning σ} (breaks : meaning.BreaksOff) :
    meaning.Within passage := by
  induction breaks with
  | exhausted =>
      exact
        { call := fun _ _ _ => Action.Follows.throw _
          install := fun _ _ _ => Action.Follows.throw _
          enter := fun _ _ => Action.Follows.throw _ }
  | @nested meaning below _ call install enter induction =>
      have inner := bears.within_step trusts induction
      have follows {α : Type} {outer nested : Action σ α}
          (does : ∀ world, outer.run world = nested.run world ∨
            ∃ fault, outer.run world = (.error fault, world))
          (respects : Action.Follows passage nested) : Action.Follows passage outer := by
        intro world
        rcases does world with same | ⟨fault, failed⟩
        · rw [same]
          exact respects world
        · rw [failed]
          exact passage.refl world
      exact
        { call := fun procedure receiver arguments =>
            follows (call procedure receiver arguments) (inner.call procedure receiver arguments)
          install := fun hook target name =>
            follows (install hook target name) (inner.install hook target name)
          enter := fun code entry => follows (enter code entry) (inner.enter code entry) }

end Meaning.BreaksOff

/-! ### Reachable worlds

A world is reachable if programs, one after the other, lead to it from one with nothing in it. -/

namespace World

/-- Whether a world comes about by running a program in another one, until the machine breaks
off or the program is through. -/
inductive Runs : World σ → World σ → Prop
  | run {meaning : Meaning σ} (breaks : meaning.BreaksOff) (program : Program σ)
      (world : World σ) : Runs world ((program.run meaning).run world).2

def Reaches : World σ → World σ → Prop :=
  Relation.ReflTransGen Runs

def Reachable (world : World σ) : Prop :=
  ∃ state, Reaches { state } world

private theorem Reaches.evolves {before after : World σ} (reaches : before.Reaches after) :
    before.store.Evolves after.store := by
  induction reaches with
  | refl => exact .refl _
  | tail _ run induction =>
      cases run with
      | run breaks program =>
          have within := breaks.within Passage.bears_evolution Passage.trusts_evolution
          have keeps := Program.keepsTo_of_all (fun _ => trivial) program
          exact induction.trans (Passage.bears_evolution.follows_run within keeps _).1

theorem Reachable.rooted {world : World σ} (reachable : world.Reachable) :
    world.store.Rooted := by
  rcases reachable with ⟨state, reaches⟩
  exact Store.rooted_of_evolves_initial reaches.evolves

/-- In every reachable world delegation is well-founded: objects, which are numbered in the order
of their creation, delegate to older ones only, and go on delegating to them in every world that
is reached later. So none is among the objects that it delegates to, and those that these delegate
to are. The ancestry of an object is all of its line, and the walks along it end. -/
theorem delegation_of_reachable {world : World σ} (reachable : world.Reachable) :
    (∀ object parent, world.store.parent object = some parent →
      world.store.hasObject object = true ∧ parent.index < object.index) ∧
    (∀ later : World σ, world.Reaches later → ∀ object, world.store.hasObject object = true →
      later.store.hasObject object = true ∧
        later.store.parent object = world.store.parent object) ∧
    (WellFounded fun parent object => world.store.parent object = some parent) ∧
    (∀ object, world.store.isPrototypeOf object object = false) ∧
    (∀ far near object, world.store.isPrototypeOf far near = true →
      world.store.isPrototypeOf near object = true →
        world.store.isPrototypeOf far object = true) ∧
    (∀ object limit, object.index < limit →
      world.store.ancestryWithin limit object = world.store.ancestry object) ∧
    ∀ object, world.store.WalksEnd object := by
  have rooted := reachable.rooted
  refine ⟨fun object parent delegates => ⟨Store.hasObject_of_parent delegates,
      rooted object parent delegates⟩,
    fun later reaches object known => reaches.evolves.extends.object object known, ?_,
    fun object => ?_, fun _ _ _ => Store.isPrototypeOf_trans rooted,
    fun _ _ => Store.ancestryWithin_eq_of_le rooted, rooted.walksEnd⟩
  · exact Subrelation.wf (fun {parent object} => rooted object parent)
      (InvImage.wf ObjectId.index Nat.lt_wfRel.wf)
  · rw [← Bool.not_eq_true]
    exact fun itself => Nat.lt_irrefl _ (Store.index_lt_of_isPrototypeOf rooted itself)

def lineage : World Unit :=
  ((Program.ask (.createObject none) fun _ => .ask (.createObject (some ⟨0⟩)) fun _ =>
    .ask (.compose {} [.object ⟨1⟩, .object ⟨0⟩]) fun _ => .done (.ok .undefined)).run
      (.ofBudget 1)).run { state := () } |>.2

theorem delegation_of_lineage :
    lineage.store.isPrototypeOf ⟨0⟩ ⟨2⟩ = true ∧ lineage.store.isPrototypeOf ⟨2⟩ ⟨2⟩ = false ∧
      lineage.store.WalksEnd ⟨2⟩ := by
  have reachable : lineage.Reachable := ⟨(), .single (.run (.ofBudget 1) _ _)⟩
  rcases delegation_of_reachable reachable with ⟨_, _, _, irreflexive, transitive, _, walks⟩
  exact ⟨transitive ⟨0⟩ ⟨1⟩ ⟨2⟩ (by decide +kernel) (by decide +kernel), irreflexive ⟨2⟩, walks ⟨2⟩⟩

end World

end TraitComposition
