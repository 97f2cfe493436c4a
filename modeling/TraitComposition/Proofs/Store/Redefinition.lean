import TraitComposition.Proofs.Action.Running
import TraitComposition.Proofs.Store.Locking

/-!
Members defined as what they are. That changes nothing, and is let through even for a member that
is locked: the definition agrees with what is there. There is one exception. Values are compared
arithmetically, and a number that is not one differs from itself, so a member that is locked with
such a number refuses its own definition.
-/
namespace TraitComposition

namespace Value

private theorem number_beq_self (amount : Float) : (amount == amount) = !amount.isNaN := by
  rw [Bool.eq_iff_iff, number_beq_iff, Bool.not_eq_true']
  change comparand amount ≠ .notANumber ∧ _ ↔ amount.toModel.unpack.isNaN = false
  unfold comparand
  cases amount.toModel.unpack with
  | notANumber => exact iff_of_false (fun both => both.1 rfl) nofun
  | zero | infinity | finite => exact iff_of_true ⟨nofun, rfl⟩ rfl

mutual

def holdsNaN : Value → Bool
  | number amount => amount.isNaN
  | list items => anyHoldsNaN items
  | _ => false

def anyHoldsNaN : List Value → Bool
  | [] => false
  | item :: items => item.holdsNaN || anyHoldsNaN items

end

mutual

theorem same_self : ∀ value : Value, value.same value = !value.holdsNaN
  | number amount => by
      rw [same, holdsNaN]
      exact number_beq_self amount
  | list items => by
      rw [same, holdsNaN]
      exact sameItems_self items
  | undefined | null => rfl
  | boolean _ | text _ | object _ | procedure _ => by simp [same, holdsNaN]

theorem sameItems_self : ∀ items : List Value, sameItems items items = !anyHoldsNaN items
  | [] => rfl
  | item :: items => by
      rw [sameItems, anyHoldsNaN, same_self item, sameItems_self items, Bool.not_or]

end

end Value

namespace Descriptor

def refusesItself (descriptor : Descriptor) : Bool :=
  !descriptor.configurable && !descriptor.isWritable &&
    descriptor.value?.any Value.holdsNaN

theorem redefinable_self {descriptor : Descriptor} (locked : descriptor.configurable = false) :
    descriptor.redefinable descriptor = !descriptor.refusesItself := by
  rcases descriptor with ⟨⟨value, _ | _⟩ | ⟨getter, setter⟩, enumerable, _⟩ <;> cases locked <;>
    simp [redefinable, same, refusesItself, isWritable, value?, Value.same_self]

end Descriptor

namespace Store

theorem accepts_self {store : Store} {object : ObjectId} {name : String} {descriptor : Descriptor}
    (owned : store.ownDescriptor? object name = some descriptor) :
    store.accepts object name descriptor = !descriptor.refusesItself := by
  rw [accepts, owned]
  cases locked : descriptor.configurable with
  | true => simp [locked, Descriptor.refusesItself]
  | false =>
      dsimp only
      rw [locked, Bool.false_or, Descriptor.redefinable_self locked]

def refusesItself (store : Store) (object : ObjectId) (name : String) : Bool :=
  (store.ownDescriptor? object name).any Descriptor.refusesItself

end Store

/-- Defining a member as what it is changes nothing, and fails exactly if the member is locked with
a number that is not one. -/
theorem Member.run_define_self {σ : Type} (world : World σ) {object : ObjectId} {name : String}
    {descriptor : Descriptor}
    (owned : world.store.ownDescriptor? object name = some descriptor) :
    (define object name descriptor).run world =
      (if descriptor.refusesItself then .error (.notConfigurable name) else .ok (), world) := by
  rw [define, Action.run_getStore_bind, Store.accepts_self owned]
  cases descriptor.refusesItself with
  | true => rfl
  | false =>
      rw [Bool.not_false, if_pos rfl, Action.run_change, Store.storeMember_of_owned owned]
      rfl

end TraitComposition
