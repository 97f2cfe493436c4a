import TraitComposition.Proofs.Store.Focus

/-!
A new table. It delegates to an older one, so it resolves what the older one does until
something is put on it, and what was there before does not notice it.
-/
namespace TraitComposition.Store

def delegating (store : Store) (base : ObjectId) : Store :=
  (store.createObject (some base)).2

def nextObject (store : Store) : ObjectId :=
  ⟨store.objects.size⟩

theorem nextObject_ne {store : Store} {object : ObjectId}
    (known : store.hasObject object = true) : store.nextObject ≠ object := by
  intro equal
  have older := hasObject_iff.mp known
  rw [← equal] at older
  exact Nat.lt_irrefl _ older

theorem members_eq_of_changesOnly {before after : Store}
    (changes : ∀ target, ChangesOnly target before after) {object : ObjectId}
    (known : before.hasObject object = true) : after.members object = before.members object :=
  (changes before.nextObject).members object known (nextObject_ne known).symm

theorem hasObject_nextObject_eq_false (store : Store) :
    store.hasObject store.nextObject = false := by
  simp [hasObject, nextObject]

theorem object_createObject_other (store : Store) (parent : Option ObjectId) {object : ObjectId}
    (different : object ≠ store.nextObject) :
    (store.createObject parent).2.object object = store.object object := by
  have apart : object.index ≠ store.objects.size := fun equal =>
    different (by cases object; exact congrArg ObjectId.mk equal)
  simp [createObject, addObject, Store.object, Array.getD_eq_getD_getElem?, Array.getElem?_push,
    apart]

theorem members_createObject (store : Store) (parent : Option ObjectId) (object : ObjectId) :
    (store.createObject parent).2.members object = store.members object := by
  by_cases same : object = store.nextObject
  · rw [same, members, members, object_of_not_hasObject (hasObject_nextObject_eq_false store),
      nextObject, object_createObject_self]
  · rw [members, members, object_createObject_other store parent same]

theorem not_mem_ancestry_nextObject {store : Store} (rooted : store.Rooted) {object : ObjectId}
    (known : store.hasObject object = true) : store.nextObject ∉ store.ancestry object :=
  not_mem_ancestry_of_younger rooted (hasObject_iff.mp known)

theorem ownDescriptor?_delegating_nextObject (store : Store) (base : ObjectId) (name : String) :
    (store.delegating base).ownDescriptor? store.nextObject name = none := by
  rw [ownDescriptor?, members, delegating, nextObject, object_createObject_self]
  exact MemberTable.find?_empty name

/-- Whether a store came about by making a table that delegates to `base`, with no other
change to what was there. -/
structure AddsTable (before : Store) (base : ObjectId) (after : Store) : Prop where
  changes : ChangesOnly before.nextObject before after
  parent : after.parent before.nextObject = some base

namespace AddsTable

variable {before after : Store} {base : ObjectId}

theorem of_delegating {store : Store} (known : store.hasObject base = true) :
    store.AddsTable base (store.delegating base) where
  changes := .of_createObject store (some base) store.nextObject
  parent := by
    rw [Store.parent, delegating, nextObject, object_createObject_self]
    exact Option.filter_eq_some_iff.mpr ⟨rfl, known⟩

variable (adds : before.AddsTable base after)

include adds

theorem hasObject_nextObject : after.hasObject before.nextObject = true :=
  hasObject_of_parent adds.parent

theorem later {last : Store} (changes : ChangesOnly before.nextObject after last) :
    before.AddsTable base last where
  changes := adds.changes.trans changes
  parent := (changes.extends_.object _ adds.hasObject_nextObject).2.trans adds.parent

variable (rooted : before.Rooted)

include rooted

/-! What was there before. -/

section Before

variable {object : ObjectId} (known : before.hasObject object = true)

include known

theorem lookup_eq (name : String) : after.lookup object name = before.lookup object name :=
  adds.changes.lookup_eq rooted known (not_mem_ancestry_nextObject rooted known) name

theorem descriptor?_eq (name : String) :
    after.descriptor? object name = before.descriptor? object name := by
  rw [descriptor?, descriptor?, adds.lookup_eq rooted known]

theorem dataValue?_eq (name : String) :
    after.dataValue? object name = before.dataValue? object name := by
  rw [dataValue?, dataValue?, adds.descriptor?_eq rooted known]

theorem enumerableNames_eq : after.enumerableNames object = before.enumerableNames object :=
  adds.changes.enumerableNames_eq rooted known (not_mem_ancestry_nextObject rooted known)

end Before

theorem chainHolds_eq {chain : List ObjectId}
    (known : ∀ table ∈ chain, before.hasObject table = true) (name : String) (method : Value) :
    after.chainHolds chain name method = before.chainHolds chain name method :=
  chainHolds_congr (fun table member => adds.dataValue?_eq rooted (known table member) name) method

/-! The table itself. -/

section Table

variable (known : before.hasObject base = true)

include known

theorem ancestors_nextObject : after.ancestors before.nextObject = before.ancestry base := by
  rw [ancestors_eq (adds.changes.rooted rooted), adds.parent]
  exact adds.changes.ancestry_eq rooted known

/-- Whether the table inherits a method depends on the line of delegation behind it. -/
theorem inherits_nextObject_iff {name : String} {method : ProcedureId} :
    after.inherits before.nextObject name (.procedure method) = true ↔
      ∃ level ∈ before.ancestry base,
        (before.ownDescriptor? level name).bind Descriptor.value? = some (.procedure method) := by
  have own {level : ObjectId} (member : level ∈ before.ancestry base) :
      after.ownDescriptor? level name = before.ownDescriptor? level name :=
    congrArg (·.find? name) (adds.changes.members_of_mem_ancestry rooted known
      (not_mem_ancestry_nextObject rooted known) member)
  rw [inherits_iff, adds.ancestors_nextObject rooted known]
  constructor
  · rintro ⟨level, member, holds⟩
    exact ⟨level, member, own member ▸ holds⟩
  · rintro ⟨level, member, holds⟩
    exact ⟨level, member, (own member).symm ▸ holds⟩

variable {name : String} (unowned : after.ownDescriptor? before.nextObject name = none)

include unowned

theorem lookup_nextObject : after.lookup before.nextObject name = before.lookup base name := by
  rw [lookup_eq_of_not_owned (adds.changes.rooted rooted) adds.parent unowned,
    adds.lookup_eq rooted known]

theorem descriptor?_nextObject :
    after.descriptor? before.nextObject name = before.descriptor? base name := by
  rw [descriptor?, descriptor?, adds.lookup_nextObject rooted known unowned]

theorem dataValue?_nextObject :
    after.dataValue? before.nextObject name = before.dataValue? base name := by
  rw [dataValue?, dataValue?, adds.descriptor?_nextObject rooted known unowned]

end Table

end AddsTable

end TraitComposition.Store
