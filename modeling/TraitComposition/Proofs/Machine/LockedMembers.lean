import TraitComposition.Proofs.Machine.Admission
import TraitComposition.Proofs.Store.Assignment

/-!
Locked members over whole runs. Whatever is asked for, and however merging, construction and
installed hooks go about it, a member that is not configurable stays, as long as nobody stores
values unchecked on its object.
-/
namespace TraitComposition

variable {σ : Type}

open TraitComposition.Action (Follows)

def Request.spares (object : ObjectId) : Request → Bool
  | .insert target _ _ => target ≠ object
  | _ => true

namespace Passage

def locking (σ : Type) (object : ObjectId) : Passage σ where
  leads before after := Store.KeepsLocked object before.store after.store
  refl world := .refl object world.store
  trans start rest := start.trans rest

variable (object : ObjectId)

private theorem bears_locking :
    (locking σ object).Bears fun request => request.spares object = true where
  quiet change := change.locked object
  procedure _ _ := .refl object _
  build enters weave := weave.follows_build enters fun _ _ _ => .refl object _
  standalone enters _ :=
    Follows.bind (Layer.follows_weave enters (fun _ _ => .refl object _) _ _)
      fun _ => Follows.bind (fun _ => .refl object _) fun _ => Follows.pure _
  state world _ := .refl object world.store
  code world _ _ := .refl object world.store
  insert spared world :=
    .of_elsewhere world.store fun equal => of_decide_eq_true spared equal.symm
  report _ world := .refl object world.store
  hook _ _ world := .refl object world.store
  mark _ world := .refl object world.store
  type _ _ world := .refl object world.store
  decorator _ world := .refl object world.store

end Passage

/-- A member that is not configurable stays through every run in which nobody stores values
unchecked on its object: it is owned, it keeps its accessors or stays a stored value, and it is as
enumerable as it was; once it is not writable it stays so, and its value stays the same, or
untouched if not even the same as itself. -/
theorem locked_members_stay {program : Program σ} {budget : Nat} {world : World σ}
    {object : ObjectId} (spared : program.Unstopped (Request.spares object) budget world)
    {name : String} {descriptor : Descriptor}
    (owned : world.store.ownDescriptor? object name = some descriptor)
    (locked : descriptor.configurable = false) :
    ∃ now, ((program.run (.ofBudget budget)).run world).2.store.ownDescriptor? object name =
        some now ∧
      descriptor.StaysLocked now := by
  have bears := Passage.bears_locking (σ := σ) object
  have within := Meaning.within_admitting bears.toBearsLibrary bears.state
    (fun world _ => .refl object world.store)
    (fun within request admitted => bears.follows_perform within admitted) budget
  have stays := Program.follows_runAdmitted bears.state (fun world _ => .refl object world.store)
    (fun within request admitted => bears.follows_perform within admitted) within program world
  rw [spared] at stays
  exact stays name descriptor owned locked

/-- A table with a member that is not configurable but writable, and one that defines it too. -/
def lockedMember : World Unit where
  store := {
    objects := #[
      { members := MemberTable.empty.insert "n" ⟨.data (.text "old") true, true, false⟩ },
      { members := MemberTable.empty.insert "n" (.ofValue (.text "mixed in")) }] }
  state := ()

/-- Hides the member, deletes it, mixes over it, locks its value as well and assigns to it. -/
def attempts : Program Unit :=
  .ask (.define ⟨0⟩ "n" ⟨.data (.text "old") true, false, false⟩) fun _ =>
  .ask (.delete ⟨0⟩ "n") fun _ =>
  .ask (.mixinInto {} ⟨0⟩ [.object ⟨1⟩]) fun _ =>
  .ask (.define ⟨0⟩ "n" ⟨.data (.text "new") false, true, false⟩) fun _ =>
  .ask (.assign ⟨0⟩ "n" (.text "newer")) fun _ =>
  .done (.ok .undefined)

/-- Of all that is attempted, only the value gets changed, and then locked. -/
theorem locked_members_stay_of_attempts :
    attempts.Unstopped (Request.spares ⟨0⟩) 2 lockedMember ∧
      (((attempts.run (.ofBudget 2)).run lockedMember).2.store.ownDescriptor? ⟨0⟩ "n").bind
        Descriptor.value? = some (.text "new") ∧
      ∃ now, ((attempts.run (.ofBudget 2)).run lockedMember).2.store.ownDescriptor? ⟨0⟩ "n" =
          some now ∧
        Descriptor.StaysLocked ⟨.data (.text "old") true, true, false⟩ now := by
  have mixed (world : World Unit)
      (succeeds : ((({} : Composer).mixinInto .exhausted ⟨0⟩ [.object ⟨1⟩]).run world).1.toOption =
        some ⟨0⟩) :
      Unstopped (Request.spares ⟨0⟩) (fun meaning =>
        ({} : Composer).mixinInto meaning ⟨0⟩ [.object ⟨1⟩]) 2 world :=
    unstopped_of_upheld (fun meaning => meaning.upheldBy_exhausted.mixinInto {} ⟨0⟩ _)
      (Action.run_eq_of_toOption _ world ⟨0⟩ succeeds) 2
  have spared : attempts.Unstopped (Request.spares ⟨0⟩) 2 lockedMember :=
    Program.unstopped_ask rfl (by simp only [Request.perform]) <|
    Program.unstopped_ask rfl (by simp only [Request.perform]) <|
    Program.unstopped_ask rfl (mixed _ (by decide +kernel)) <|
    Program.unstopped_ask rfl (by simp only [Request.perform]) <|
    Program.unstopped_ask rfl (Member.run_assign_of_setterless (by decide +kernel) ..) rfl
  exact ⟨spared, rfl, locked_members_stay spared rfl rfl⟩

def lockedNaN : Descriptor :=
  ⟨.data (.number (0 / 0)) false, true, false⟩

def holdingNaN : World Unit where
  store := { objects := #[{ members := MemberTable.empty.insert "n" lockedNaN }] }
  state := ()

def overwriting : Program Unit :=
  .ask (.assign ⟨0⟩ "n" .null) fun _ => .done (.ok .undefined)

/-- Without anybody changing it, what is not a number is not the same as it was. -/
theorem locked_value_not_same_of_nan :
    overwriting.Unstopped (Request.spares ⟨0⟩) 1 holdingNaN ∧
      holdingNaN.store.ownDescriptor? ⟨0⟩ "n" = some lockedNaN ∧
      lockedNaN.configurable = false ∧
      ((overwriting.run (.ofBudget 1)).run holdingNaN).2.store.ownDescriptor? ⟨0⟩ "n" =
        some lockedNaN ∧
      ∃ value, lockedNaN.shape = .data value false ∧ value.same value = false := by
  exact ⟨rfl, rfl, rfl, rfl, .number (0 / 0), rfl, by decide⟩

end TraitComposition
