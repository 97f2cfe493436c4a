import TraitComposition.Proofs.Store.Focus

/-!
Changes confined to some names of one object. Whatever is stored under them, all objects
resolve the other names to what they did before, the one that changed included.
-/
namespace TraitComposition.Store

/-- Whether nothing that was there before has changed but what one object owns under some
names, and nothing was reported. -/
structure Confined (target : ObjectId) (names : List String) (before after : Store) : Prop
    extends ChangesOnly target before after where
  others : ∀ name, name ∉ names →
    after.ownDescriptor? target name = before.ownDescriptor? target name
  journal : after.journal = before.journal

namespace Confined

variable {target : ObjectId} {names more : List String} {first second third : Store}

theorem refl (target : ObjectId) (store : Store) : Confined target [] store store where
  toChangesOnly := .refl target store
  others _ _ := rfl
  journal := rfl

theorem trans (start : Confined target names first second)
    (rest : Confined target more second third) : Confined target (names ++ more) first third where
  toChangesOnly := start.toChangesOnly.trans rest.toChangesOnly
  others name absent := by
    rw [List.mem_append, not_or] at absent
    exact (rest.others name absent.2).trans (start.others name absent.1)
  journal := rest.journal.trans start.journal

theorem of_storeMember (store : Store) (target : ObjectId) (name : String)
    (descriptor : Descriptor) :
    Confined target [name] store (store.storeMember target name descriptor) where
  toChangesOnly := .of_storeMember store target name descriptor
  others _ absent := ownDescriptor?_storeMember_other store descriptor fun both =>
    absent (List.mem_singleton.mpr both.2)
  journal := rfl

section Reading

variable {before after : Store} (confined : Confined target names before after)
  (rooted : before.Rooted) {object : ObjectId} (known : before.hasObject object = true)
  {name : String} (absent : name ∉ names)

include confined rooted known absent

private theorem ownDescriptor?_eq_of_mem_ancestry {level : ObjectId}
    (member : level ∈ before.ancestry object) :
    after.ownDescriptor? level name = before.ownDescriptor? level name := by
  by_cases same : level = target
  · rw [same, confined.others name absent]
  · rw [ownDescriptor?, ownDescriptor?,
      confined.members level (hasObject_of_mem_ancestry rooted known member) same]

theorem lookup_eq : after.lookup object name = before.lookup object name :=
  lookup_congr (confined.ancestry_eq rooted known)
    fun _ member => confined.ownDescriptor?_eq_of_mem_ancestry rooted known absent member

theorem inherits_eq (method : Value) :
    after.inherits object name method = before.inherits object name method :=
  inherits_congr (confined.ancestry_eq rooted known)
    (fun _ member => confined.ownDescriptor?_eq_of_mem_ancestry rooted known absent member) method

theorem descriptor?_eq : after.descriptor? object name = before.descriptor? object name := by
  rw [descriptor?, descriptor?, confined.lookup_eq rooted known absent]

theorem dataValue?_eq : after.dataValue? object name = before.dataValue? object name := by
  rw [dataValue?, dataValue?, confined.descriptor?_eq rooted known absent]

end Reading

end Confined

end TraitComposition.Store
