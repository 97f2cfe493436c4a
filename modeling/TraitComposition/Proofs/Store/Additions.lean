import TraitComposition.Proofs.Store.Confinement
import TraitComposition.Proofs.Store.NewTable

/-!
Additions. New objects, procedures and types may be there, and members may be stored on the
new objects; as long as that is all, what was there before resolves and enumerates what it
did.
-/
namespace TraitComposition.Store

structure OnlyAdds (before after : Store) : Prop
    extends ChangesOnly before.nextObject before after where
  journal : after.journal = before.journal

namespace OnlyAdds

variable {first second third before after : Store}

theorem refl (store : Store) : store.OnlyAdds store where
  toChangesOnly := .refl store.nextObject store
  journal := rfl

theorem changesOnly (adds : before.OnlyAdds after) (target : ObjectId) :
    ChangesOnly target before after :=
  adds.toChangesOnly.of_new (hasObject_nextObject_eq_false before) target

theorem trans (start : first.OnlyAdds second) (rest : second.OnlyAdds third) :
    first.OnlyAdds third where
  toChangesOnly := start.toChangesOnly.trans (rest.changesOnly first.nextObject)
  journal := rest.journal.trans start.journal

theorem changing {target : ObjectId} (adds : first.OnlyAdds second)
    (changes : ChangesOnly target second third) (journal : third.journal = second.journal)
    (new : first.hasObject target = false) : first.OnlyAdds third where
  toChangesOnly := ((adds.changesOnly target).trans changes).of_new new first.nextObject
  journal := journal.trans adds.journal

theorem of_addProcedure (store : Store) (procedure : Procedure) :
    store.OnlyAdds (store.addProcedure procedure).2 where
  toChangesOnly := .of_addProcedure store procedure store.nextObject
  journal := rfl

theorem of_addComposite (store : Store) (prototype : ObjectId) (bases : Bases)
    (composer : Composer) : store.OnlyAdds (store.addComposite prototype bases composer).2 where
  toChangesOnly := .of_addComposite store prototype bases composer store.nextObject
  journal := rfl

theorem of_createObject (store : Store) (parent : Option ObjectId) :
    store.OnlyAdds (store.createObject parent).2 where
  toChangesOnly := .of_createObject store parent store.nextObject
  journal := rfl

theorem of_delegating (store : Store) (base : ObjectId) :
    store.OnlyAdds (store.delegating base) :=
  of_createObject store (some base)

theorem of_prototypeOf (store : Store) (reference : ProcedureId) :
    store.OnlyAdds (store.prototypeOf reference).2 where
  toChangesOnly := .of_prototypeOf store reference store.nextObject
  journal := by
    rcases store.prototypeOf_cases reference with unchanged | ⟨_, made⟩
    · rw [unchanged]
    · rw [made]
      rfl

theorem members_eq (adds : before.OnlyAdds after) {object : ObjectId}
    (known : before.hasObject object = true) : after.members object = before.members object :=
  members_eq_of_changesOnly adds.changesOnly known

theorem confined (adds : before.OnlyAdds after) {target : ObjectId}
    (known : before.hasObject target = true) (names : List String) :
    Confined target names before after where
  toChangesOnly := adds.changesOnly target
  others name _ := by rw [ownDescriptor?, ownDescriptor?, adds.members_eq known]
  journal := adds.journal

section Reading

variable (adds : before.OnlyAdds after) (rooted : before.Rooted) {object : ObjectId}
  (known : before.hasObject object = true)

include adds rooted known

theorem lookup_eq (name : String) : after.lookup object name = before.lookup object name :=
  adds.toChangesOnly.lookup_eq rooted known (not_mem_ancestry_nextObject rooted known) name

theorem descriptor?_eq (name : String) :
    after.descriptor? object name = before.descriptor? object name := by
  rw [descriptor?, descriptor?, adds.lookup_eq rooted known]

theorem enumerableNames_eq : after.enumerableNames object = before.enumerableNames object :=
  adds.toChangesOnly.enumerableNames_eq rooted known (not_mem_ancestry_nextObject rooted known)

end Reading

end OnlyAdds

end TraitComposition.Store
