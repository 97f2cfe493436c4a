import TraitComposition.Member
import TraitComposition.Proofs.Store.NewTable

/-!
Regions of a store. A region is a set of names of objects, and a change is within it if
nothing that was there before has changed but what the objects own under these names. What
a name resolves to only depends on the levels that the lookup passes.
-/
namespace TraitComposition.Store

abbrev Region := ObjectId → String → Prop

namespace Region

def nowhere : Region := fun _ _ => False

def member (object : ObjectId) (name : String) : Region :=
  fun other another => other = object ∧ another = name

def object (object : ObjectId) : Region :=
  fun other _ => other = object

def objects (first second : ObjectId) : Region :=
  fun other _ => other = first ∨ other = second

end Region

structure ChangesWithin (region : Region) (before after : Store) : Prop where
  extends_ : before.Extends after
  own : ∀ object name, before.hasObject object = true → ¬region object name →
    after.ownDescriptor? object name = before.ownDescriptor? object name
  rooted : before.Rooted → after.Rooted

namespace ChangesWithin

variable {region wider : Region} {first second third : Store}

theorem refl (region : Region) (store : Store) : ChangesWithin region store store where
  extends_ := .refl store
  own _ _ _ _ := rfl
  rooted rooted := rooted

theorem trans (start : ChangesWithin region first second)
    (rest : ChangesWithin region second third) : ChangesWithin region first third where
  extends_ := start.extends_.trans rest.extends_
  own object name known outside :=
    (rest.own object name (start.extends_.object object known).1 outside).trans
      (start.own object name known outside)
  rooted rooted := rest.rooted (start.rooted rooted)

theorem mono (changes : ChangesWithin region first second)
    (inside : ∀ object name, first.hasObject object = true → region object name →
      wider object name) : ChangesWithin wider first second :=
  { changes with
    own := fun object name known outside =>
      changes.own object name known fun within => outside (inside object name known within) }

theorem of_nowhere (changes : ChangesWithin .nowhere first second) :
    ChangesWithin region first second :=
  changes.mono fun _ _ _ impossible => impossible.elim

theorem of_changesOnly {target : ObjectId} (changes : ChangesOnly target first second) :
    ChangesWithin (.object target) first second where
  extends_ := changes.extends_
  own object name known outside := by
    rw [ownDescriptor?, ownDescriptor?, changes.members object known outside]
  rooted := changes.rooted

theorem nowhere_of_changesOnly (changes : ∀ target, ChangesOnly target first second) :
    ChangesWithin .nowhere first second :=
  (of_changesOnly (changes first.nextObject)).mono fun _ _ known equal =>
    nextObject_ne known equal.symm

theorem of_storeMember (store : Store) (target : ObjectId) (name : String)
    (descriptor : Descriptor) :
    ChangesWithin (.member target name) store (store.storeMember target name descriptor) where
  extends_ := .of_storeMember store target name descriptor
  own _ _ _ outside := ownDescriptor?_storeMember_other store descriptor outside
  rooted rooted := rooted.of_parent_eq (parent_updateMembers _ _ _)

theorem of_createObject (store : Store) (parent : Option ObjectId) :
    ChangesWithin .nowhere store (store.createObject parent).2 :=
  nowhere_of_changesOnly fun target => .of_createObject store parent target

theorem of_prototypeOf (store : Store) (procedure : ProcedureId) :
    ChangesWithin .nowhere store (store.prototypeOf procedure).2 :=
  nowhere_of_changesOnly fun target => .of_prototypeOf store procedure target

private theorem of_insertAll (object : ObjectId) :
    ∀ (entries : List (String × Value)) (store : Store),
      ChangesWithin (.object object) store (store.insertAll object entries)
  | [], store => .refl _ store
  | entry :: entries, store => by
      have first := of_storeMember store object entry.1 (.ofValue entry.2)
      exact (first.mono fun _ _ _ within => within.1).trans (of_insertAll object entries _)

theorem of_encode (store : Store) (fields : List (String × Value)) :
    ChangesWithin .nowhere store (Store.encode fields store).2 := by
  have made : ChangesWithin (.object store.nextObject) store (store.createObject none).2 :=
    (of_createObject store none).of_nowhere
  have filled := of_insertAll store.nextObject fields (store.createObject none).2
  exact (made.trans filled).mono fun _ _ known equal => nextObject_ne known equal.symm

/-! ### Reading -/

section Reading

variable {before after : Store} (changes : ChangesWithin region before after)
  (rooted : before.Rooted) {object : ObjectId} (known : before.hasObject object = true)

include changes rooted known

theorem ancestry_eq : after.ancestry object = before.ancestry object :=
  changes.extends_.ancestry_eq rooted (changes.rooted rooted) known

variable {name : String} (outside : ∀ level ∈ before.ancestry object, ¬region level name)

include outside

theorem lookup_eq : after.lookup object name = before.lookup object name := by
  apply lookup_congr (changes.ancestry_eq rooted known)
  intro level member
  exact changes.own level name (hasObject_of_mem_ancestry rooted known member)
    (outside level member)

theorem descriptor?_eq : after.descriptor? object name = before.descriptor? object name := by
  rw [descriptor?, descriptor?, changes.lookup_eq rooted known outside]

theorem dataValue?_eq : after.dataValue? object name = before.dataValue? object name := by
  rw [dataValue?, dataValue?, changes.descriptor?_eq rooted known outside]

end Reading

theorem has_eq {before after : Store} (changes : ChangesWithin .nowhere before after)
    (rooted : before.Rooted) {object : ObjectId} (known : before.hasObject object = true)
    (name : String) : after.has object name = before.has object name := by
  rw [has, has, changes.lookup_eq rooted known fun _ _ => id]

end ChangesWithin

/-! ### One object that changes -/

/-- Whether another object comes before every level of an ancestry that owns a name, or is the first
one that does. -/
def readsThrough (store : Store) (object target : ObjectId) (name : String) : Bool :=
  (store.ancestry object).find? (fun level => level = target || store.hasOwn level name) =
    some target

private theorem readsThrough_self (store : Store) (target : ObjectId) (name : String) :
    store.readsThrough target target name = true := by
  simp [readsThrough, ancestry_eq_cons]

section Through

variable {start : Store} (rooted : start.Rooted) {object target : ObjectId} {name : String}

include rooted

private theorem readsThrough_of_ne (different : object ≠ target) :
    start.readsThrough object target name =
      (!start.hasOwn object name &&
        (start.parent object).any fun parent => start.readsThrough parent target name) := by
  rw [readsThrough, ancestry_eq rooted]
  cases owns : start.hasOwn object name <;> cases start.parent object <;>
    simp [different, owns, readsThrough]

variable (known : start.hasObject object = true) {now : Store}
  (changes : ChangesWithin (.object target) start now)

include known changes

theorem lookup_of_readsThrough (through : start.readsThrough object target name = true) :
    now.lookup object name = now.lookup target name := by
  induction object using rooted.delegation_induction with
  | each object induction =>
      by_cases same : object = target
      · rw [same]
      rw [readsThrough_of_ne rooted same, Bool.and_eq_true, Option.any_eq_true] at through
      rcases through with ⟨unowned, parent, delegates, throughParent⟩
      have missing : now.ownDescriptor? object name = none := by
        rw [changes.own object name known same]
        simpa [hasOwn_eq_isSome] using unowned
      have knownParent := rooted.hasObject_parent known delegates
      rw [lookup_eq_of_not_owned (changes.rooted rooted)
        ((changes.extends_.object object known).2.trans delegates) missing]
      exact induction parent delegates knownParent throughParent

theorem lookup_of_not_readsThrough (elsewhere : start.readsThrough object target name = false) :
    now.lookup object name = start.lookup object name := by
  induction object using rooted.delegation_induction with
  | each object induction =>
      have different : object ≠ target := by
        rintro rfl
        rw [readsThrough_self] at elsewhere
        cases elsewhere
      have own := changes.own object name known different
      rw [readsThrough_of_ne rooted different] at elsewhere
      cases owned : start.ownDescriptor? object name with
      | some descriptor => rw [lookup_of_own owned, lookup_of_own (own.trans owned)]
      | none =>
          rw [hasOwn_eq_isSome, owned] at elsewhere
          cases delegates : start.parent object with
          | none =>
              refine changes.lookup_eq rooted known fun level member => ?_
              rw [ancestry_eq rooted, delegates, List.mem_singleton] at member
              exact fun equal => different (member.symm.trans equal)
          | some parent =>
              have knownParent := rooted.hasObject_parent known delegates
              rw [lookup_eq_of_not_owned (changes.rooted rooted)
                  ((changes.extends_.object object known).2.trans delegates) (own.trans owned),
                lookup_eq_of_not_owned rooted delegates owned]
              exact induction parent delegates knownParent (by simpa [delegates] using elsewhere)

end Through

/-- While what one object owns changes, a name resolves for another one to what it resolved to from
the start, or else always to what it resolves to for the one that changes. -/
theorem lookup_fixed_or_through {start : Store} (rooted : start.Rooted) {object : ObjectId}
    (known : start.hasObject object = true) (target : ObjectId) (name : String) :
    (∀ now, ChangesWithin (.object target) start now →
        now.lookup object name = start.lookup object name) ∨
      ∀ now, ChangesWithin (.object target) start now →
        now.lookup object name = now.lookup target name := by
  cases through : start.readsThrough object target name with
  | false => exact .inl fun now changes => lookup_of_not_readsThrough rooted known changes through
  | true => exact .inr fun now changes => lookup_of_readsThrough rooted known changes through

end TraitComposition.Store
