import TraitComposition.Proofs.Store.Enumeration
import TraitComposition.Proofs.Store.Regions

/-!
Locked members. A member that is not configurable stays: it keeps its kind, its accessors and
whether it is enumerable, and once it is not writable either, its value. A definition that is
accepted, an assignment and a deletion respect that. Storing a value unchecked does not,
unless the name is new.
-/
namespace TraitComposition

/-! ### Values that are the same -/

namespace Value

open Float.Model (UnpackedFloat)

def comparand (amount : Float) : UnpackedFloat :=
  match amount.toModel.unpack with
  | .zero _ => .zero .positive
  | other => other

private theorem compare_then_eq_iff (leftExponent exponent : Int) (leftMantissa mantissa : Nat) :
    (compare leftExponent exponent).then (compare leftMantissa mantissa) = .eq ↔
      leftExponent = exponent ∧ leftMantissa = mantissa := by
  rw [Ordering.then_eq_eq, Std.LawfulEqOrd.compare_eq_iff_eq, Std.LawfulEqOrd.compare_eq_iff_eq]

theorem number_beq_iff (left right : Float) :
    (left == right) = true ↔ comparand left ≠ .notANumber ∧ comparand left = comparand right := by
  change (UnpackedFloat.compare left.toModel.unpack right.toModel.unpack == some .eq) = true ↔ _
  rw [comparand, comparand, beq_iff_eq]
  rcases left.toModel.unpack with (_ | _) | _ | _ | ⟨_ | _, leftMantissa, leftExponent, _⟩ <;>
    rcases right.toModel.unpack with (_ | _) | _ | _ | ⟨_ | _, mantissa, exponent, _⟩ <;>
    dsimp only [UnpackedFloat.compare]
  case finite.positive.finite.positive =>
    rw [Option.some.injEq, compare_then_eq_iff, UnpackedFloat.finite.injEq]
    exact ⟨fun ⟨exponents, mantissas⟩ => ⟨nofun, rfl, mantissas, exponents⟩,
      fun ⟨_, _, mantissas, exponents⟩ => ⟨exponents, mantissas⟩⟩
  case finite.negative.finite.negative =>
    rw [Option.some.injEq, Ordering.swap_eq_eq, compare_then_eq_iff, UnpackedFloat.finite.injEq]
    exact ⟨fun ⟨exponents, mantissas⟩ => ⟨nofun, rfl, mantissas, exponents⟩,
      fun ⟨_, _, mantissas, exponents⟩ => ⟨exponents, mantissas⟩⟩
  -- The rest is the same, of different kinds or not a number.
  all_goals first
    | exact ⟨fun _ => ⟨nofun, rfl⟩, fun _ => rfl⟩
    | refine ⟨fun equal => absurd equal (by decide), ?_⟩
      rintro ⟨number, same⟩
      first
        | cases same; done
        | exact absurd rfl number

/-! Strict identity is symmetric and transitive, but not reflexive. -/

mutual

private theorem same_symm : ∀ {left right : Value}, left.same right = true → right.same left = true
  | .number left, .number right, same => by
      rw [Value.same, number_beq_iff] at same ⊢
      exact ⟨same.2 ▸ same.1, same.2.symm⟩
  | .list lefts, .list rights, same => by
      rw [Value.same] at same ⊢
      exact sameItems_symm same
  | .undefined, .undefined, _ | .null, .null, _ => rfl
  | .boolean _, .boolean _, same | .text _, .text _, same | .object _, .object _, same
  | .procedure _, .procedure _, same => by
      rw [Value.same, beq_iff_eq] at same ⊢
      exact same.symm

theorem sameItems_symm : ∀ {lefts rights : List Value}, sameItems lefts rights = true →
    sameItems rights lefts = true
  | [], [], _ => rfl
  | left :: lefts, right :: rights, same => by
      rw [sameItems, Bool.and_eq_true] at same ⊢
      exact ⟨same_symm same.1, sameItems_symm same.2⟩

end

mutual

theorem same_trans : ∀ {first second third : Value}, first.same second = true →
    second.same third = true → first.same third = true
  | .number first, .number second, .number third, start, rest => by
      rw [Value.same, number_beq_iff] at start rest ⊢
      exact ⟨start.1, start.2.trans rest.2⟩
  | .list firsts, .list seconds, .list thirds, start, rest => by
      rw [Value.same] at start rest ⊢
      exact sameItems_trans start rest
  | .undefined, .undefined, .undefined, _, _ | .null, .null, .null, _, _ => rfl
  | .boolean _, .boolean _, .boolean _, start, rest | .text _, .text _, .text _, start, rest
  | .object _, .object _, .object _, start, rest
  | .procedure _, .procedure _, .procedure _, start, rest => by
      rw [Value.same, beq_iff_eq] at start rest ⊢
      exact start.trans rest

theorem sameItems_trans : ∀ {firsts seconds thirds : List Value},
    sameItems firsts seconds = true → sameItems seconds thirds = true →
      sameItems firsts thirds = true
  | [], [], [], _, _ => rfl
  | first :: firsts, second :: seconds, third :: thirds, start, rest => by
      rw [sameItems, Bool.and_eq_true] at start rest ⊢
      exact ⟨same_trans start.1 rest.1, sameItems_trans start.2 rest.2⟩

end

/-- Whether a value that must not change has stayed the same. What is not even the same as itself
is to stay untouched. -/
structure Stays (old new : Value) : Prop where
  same : old.same old = true → old.same new = true
  untouched : old.same old = false → new = old

namespace Stays

theorem refl (value : Value) : value.Stays value where
  same itself := itself
  untouched _ := rfl

theorem of_same {old new : Value} (same : old.same new = true) : old.Stays new where
  same _ := same
  untouched differs := by
    rw [same_trans same (same_symm same)] at differs
    cases differs

theorem trans {first second third : Value} (start : first.Stays second)
    (rest : second.Stays third) : first.Stays third where
  same itself := by
    have started := start.same itself
    exact same_trans started (rest.same (same_trans (same_symm started) started))
  untouched differs := by
    obtain rfl := start.untouched differs
    exact rest.untouched differs

end Stays

end Value

/-! ### Members that stay

Of a member that is not configurable only a writable value may change, and may be locked as well.
A value that is not writable stays. -/

inductive Shape.StaysLocked : Shape → Shape → Prop
  | accessor (getter setter : Option ProcedureId) :
      StaysLocked (.accessor getter setter) (.accessor getter setter)
  | writable (old new : Value) (writable : Bool) :
      StaysLocked (.data old true) (.data new writable)
  | readOnly {old new : Value} (stays : old.Stays new) :
      StaysLocked (.data old false) (.data new false)

namespace Shape.StaysLocked

theorem refl (shape : Shape) : shape.StaysLocked shape := by
  rcases shape with ⟨value, _ | _⟩ | ⟨getter, setter⟩
  · exact .readOnly (.refl value)
  · exact .writable value value true
  · exact .accessor getter setter

theorem trans {first second third : Shape} (start : first.StaysLocked second)
    (rest : second.StaysLocked third) : first.StaysLocked third := by
  cases start with
  | accessor => exact rest
  | writable old new writable =>
      cases rest with
      | writable => exact .writable ..
      | readOnly => exact .writable ..
  | readOnly stays =>
      cases rest with
      | readOnly more => exact .readOnly (stays.trans more)

end Shape.StaysLocked

namespace Descriptor

structure StaysLocked (old new : Descriptor) : Prop where
  shape : old.shape.StaysLocked new.shape
  enumerable : new.enumerable = old.enumerable
  locked : new.configurable = false

namespace StaysLocked

theorem refl {descriptor : Descriptor} (locked : descriptor.configurable = false) :
    descriptor.StaysLocked descriptor where
  shape := .refl descriptor.shape
  enumerable := rfl
  locked := locked

theorem trans {first second third : Descriptor} (start : first.StaysLocked second)
    (rest : second.StaysLocked third) : first.StaysLocked third where
  shape := start.shape.trans rest.shape
  enumerable := rest.enumerable.trans start.enumerable
  locked := rest.locked

theorem of_same {existing incoming : Descriptor} (locked : existing.configurable = false)
    (same : existing.same incoming = true) : existing.StaysLocked incoming := by
  rw [Descriptor.same, Bool.and_eq_true, Bool.and_eq_true, beq_iff_eq, beq_iff_eq] at same
  rcases same with ⟨⟨shapes, enumerable⟩, configurable⟩
  refine ⟨?_, enumerable.symm, configurable.symm.trans locked⟩
  revert shapes
  rcases existing.shape with ⟨old, writable⟩ | ⟨getter, setter⟩ <;>
    rcases incoming.shape with ⟨new, writableNow⟩ | ⟨getterNow, setterNow⟩ <;>
    simp only [Bool.and_eq_true, beq_iff_eq, Bool.false_eq_true, false_imp_iff]
  · rintro ⟨same, rfl⟩
    cases writable with
    | true => exact .writable old new true
    | false => exact .readOnly (.of_same same)
  · rintro ⟨rfl, rfl⟩
    exact .accessor getter setter

theorem of_redefinable {existing incoming : Descriptor} (locked : existing.configurable = false)
    (redefinable : existing.redefinable incoming = true) : existing.StaysLocked incoming := by
  rw [Descriptor.redefinable, Bool.or_eq_true] at redefinable
  rcases redefinable with same | changes
  · exact of_same locked same
  · split at changes
    · next old new writable shape shapeNow =>
      rw [Bool.and_eq_true, beq_iff_eq, Bool.not_eq_true'] at changes
      refine ⟨?_, changes.1.symm, changes.2⟩
      rw [shape, shapeNow]
      exact .writable old new writable
    · cases changes

theorem of_withValue {descriptor : Descriptor} {old : Value}
    (locked : descriptor.configurable = false) (writable : descriptor.shape = .data old true)
    (value : Value) : descriptor.StaysLocked (descriptor.withValue value) := by
  rcases descriptor with ⟨shape, enumerable, configurable⟩
  cases writable
  exact ⟨.writable old value true, rfl, locked⟩

end StaysLocked

end Descriptor

namespace Store

def KeepsLocked (object : ObjectId) (before after : Store) : Prop :=
  ∀ name descriptor, before.ownDescriptor? object name = some descriptor →
    descriptor.configurable = false →
    ∃ now, after.ownDescriptor? object name = some now ∧ descriptor.StaysLocked now

namespace KeepsLocked

variable {object : ObjectId} {first second third : Store}

theorem refl (object : ObjectId) (store : Store) : KeepsLocked object store store :=
  fun _ descriptor owned locked => ⟨descriptor, owned, .refl locked⟩

theorem trans (start : KeepsLocked object first second) (rest : KeepsLocked object second third) :
    KeepsLocked object first third := by
  intro name descriptor owned locked
  rcases start name descriptor owned locked with ⟨between, ownedThen, stays⟩
  rcases rest name between ownedThen stays.locked with ⟨now, ownedNow, staysOn⟩
  exact ⟨now, ownedNow, stays.trans staysOn⟩

theorem of_changesWithin (changes : ChangesWithin .nowhere first second) :
    KeepsLocked object first second := by
  intro name descriptor owned locked
  refine ⟨descriptor, ?_, .refl locked⟩
  rw [changes.own object name (hasObject_of_descriptor? (descriptor?_of_own owned)) id, owned]

variable (store : Store) {target : ObjectId} {name : String} {descriptor : Descriptor}

theorem of_storeMember
    (stays : ∀ existing, store.ownDescriptor? target name = some existing →
      existing.configurable = false → existing.StaysLocked descriptor) :
    KeepsLocked object store (store.storeMember target name descriptor) := by
  intro other existing owned locked
  by_cases stored : object = target ∧ other = name
  · rcases stored with ⟨rfl, rfl⟩
    have known := hasObject_of_descriptor? (descriptor?_of_own owned)
    exact ⟨descriptor, ownDescriptor?_storeMember_same _ _ _ _ known, stays existing owned locked⟩
  · exact ⟨existing, by rw [ownDescriptor?_storeMember_other store descriptor stored, owned],
      .refl locked⟩

theorem of_accepts (accepted : store.accepts target name descriptor = true) :
    KeepsLocked object store (store.storeMember target name descriptor) := by
  refine of_storeMember store fun existing owned locked => ?_
  rw [accepts, owned] at accepted
  simp only [locked, Bool.false_or] at accepted
  exact .of_redefinable locked accepted

theorem of_writable {old : Value} (owned : store.ownDescriptor? target name = some descriptor)
    (writable : descriptor.shape = .data old true) (value : Value) :
    KeepsLocked object store (store.storeMember target name (descriptor.withValue value)) := by
  refine of_storeMember store fun existing found locked => ?_
  cases owned.symm.trans found
  exact .of_withValue locked writable value

theorem of_not_owned (unowned : store.ownDescriptor? target name = none) :
    KeepsLocked object store (store.storeMember target name descriptor) := by
  refine of_storeMember store fun existing owned _ => ?_
  rw [unowned] at owned
  cases owned

theorem of_elsewhere (different : object ≠ target) :
    KeepsLocked object store (store.storeMember target name descriptor) := by
  intro other existing owned locked
  exact ⟨existing, by rw [ownDescriptor?_storeMember_other store descriptor
    fun both => different both.1, owned], .refl locked⟩

theorem storeMember_of_new (keeps : KeepsLocked object first second)
    (new : first.hasObject target = false) :
    KeepsLocked object first (second.storeMember target name descriptor) := by
  intro other existing owned locked
  rcases keeps other existing owned locked with ⟨now, ownedNow, stays⟩
  have different : ¬(object = target ∧ other = name) := by
    rintro ⟨rfl, _⟩
    rw [hasObject_of_descriptor? (descriptor?_of_own owned)] at new
    cases new
  exact ⟨now, by rw [ownDescriptor?_storeMember_other second descriptor different, ownedNow], stays⟩

theorem of_deletable (deletable : store.deletable target name = true) :
    KeepsLocked object store (store.eraseMember target name) := by
  intro other existing owned locked
  have kept : (store.eraseMember target name).ownDescriptor? object other =
      store.ownDescriptor? object other := by
    by_cases same : object = target
    · subst same
      have different : other ≠ name := by
        rintro rfl
        rw [Store.deletable, owned, Option.map_some, Option.getD_some, locked] at deletable
        cases deletable
      rw [ownDescriptor?, eraseMember, members_updateMembers_same _ _ _
        (hasObject_of_descriptor? (descriptor?_of_own owned))]
      exact MemberTable.find?_erase_other _ different
    · rw [ownDescriptor?, eraseMember, members_updateMembers_other _ _ same, ← ownDescriptor?]
  exact ⟨existing, kept.trans owned, .refl locked⟩

end KeepsLocked

end Store

end TraitComposition
