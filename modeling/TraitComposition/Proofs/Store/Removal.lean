import TraitComposition.Proofs.Store.Regions

/-!
Removing a name. At every level of an object's ancestry that owns the name configurably the
definition is deleted, and that is all that happens; so the name is found afterwards where a level
owns it locked.
-/
namespace TraitComposition.Store

section Deletable

variable {store : Store} {level : ObjectId} {name : String}

private theorem deletable_iff : store.deletable level name = true ↔
    ∃ descriptor, store.ownDescriptor? level name = some descriptor ∧
      descriptor.configurable = true := by
  rw [deletable]
  cases store.ownDescriptor? level name <;> simp

private theorem deletable_congr {other : Store} (same : other.members level = store.members level)
    (name : String) : other.deletable level name = store.deletable level name := by
  rw [deletable, deletable, ownDescriptor?, ownDescriptor?, same]

end Deletable

/-! ### Deleting at one level -/

section Deletion

variable (store : Store) (level : ObjectId) (name : String)

private theorem delete_eq : store.delete level name =
    (store.deletable level name,
      if store.deletable level name then store.eraseMember level name else store) := by
  rw [delete]
  split <;> simp [*]

private theorem confined_delete : (store.delete level name).2 =
    { store with objects := (store.delete level name).2.objects } := by
  rw [delete_eq]
  dsimp only
  split <;> rfl

private theorem size_delete : (store.delete level name).2.objects.size = store.objects.size := by
  rw [delete_eq]
  dsimp only
  split
  · exact objects_size_updateMembers _ _ _
  · rfl

theorem parent_delete (object : ObjectId) :
    (store.delete level name).2.parent object = store.parent object := by
  rw [delete_eq]
  dsimp only
  split
  · exact parent_updateMembers _ _ _ object
  · rfl

private theorem members_delete_same : (store.delete level name).2.members level =
    if store.deletable level name = true then (store.members level).erase name
    else store.members level := by
  rw [delete_eq]
  dsimp only
  split
  · next deletable =>
    rcases deletable_iff.mp deletable with ⟨descriptor, owned, _⟩
    exact members_updateMembers_same _ _ _ (hasObject_of_descriptor? (descriptor?_of_own owned))
  · rfl

variable {level} in
private theorem members_delete_other {other : ObjectId} (different : other ≠ level) :
    (store.delete level name).2.members other = store.members other := by
  rw [delete_eq]
  dsimp only
  split
  · exact members_updateMembers_other _ _ different
  · rfl

end Deletion

/-! ### Deleting level by level -/

structure Deletes (name : String) (levels : List ObjectId) (before after : Store) : Prop where
  /-- Nothing but objects is written. -/
  confined : after = { before with objects := after.objects }
  size : after.objects.size = before.objects.size
  parent : ∀ object, after.parent object = before.parent object
  members : ∀ level, after.members level =
    if level ∈ levels ∧ before.deletable level name = true then
      (before.members level).erase name
    else
      before.members level

namespace Deletes

variable {name : String} {levels : List ObjectId} {level : ObjectId} {before after : Store}

private theorem nil (name : String) (store : Store) : Deletes name [] store store where
  confined := rfl
  size := rfl
  parent _ := rfl
  members level := by rw [if_neg fun both => List.not_mem_nil both.1]

theorem cons (fresh : level ∉ levels)
    (rest : Deletes name levels (before.delete level name).2 after) :
    Deletes name (level :: levels) before after where
  confined := by
    rw [rest.confined, before.confined_delete level name]
  size := rest.size.trans (before.size_delete level name)
  parent object := (rest.parent object).trans (before.parent_delete level name object)
  members other := by
    rw [rest.members]
    by_cases same : other = level
    · subst same
      rw [if_neg fun both => fresh both.1, members_delete_same]
      simp only [List.mem_cons_self, true_and]
    · have kept := before.members_delete_other name same
      rw [kept, deletable_congr kept]
      simp only [List.mem_cons, same, false_or]

/-! What is read once the name was deleted. -/

variable (deletes : Deletes name levels before after)

include deletes

private theorem ownDescriptor?_other {other : String} (different : other ≠ name)
    (level : ObjectId) :
    after.ownDescriptor? level other = before.ownDescriptor? level other := by
  rw [ownDescriptor?, ownDescriptor?, deletes.members]
  split
  · exact MemberTable.find?_erase_other _ different
  · rfl

theorem ownDescriptor?_eq_some_iff (member : level ∈ levels) {descriptor : Descriptor} :
    after.ownDescriptor? level name = some descriptor ↔
      before.ownDescriptor? level name = some descriptor ∧ descriptor.configurable = false := by
  rw [ownDescriptor?, deletes.members]
  split
  · next erased =>
    rcases deletable_iff.mp erased.2 with ⟨known, owned, configurable⟩
    rw [MemberTable.find?_erase_same, owned]
    constructor
    · intro found
      cases found
    · rintro ⟨found, locked⟩
      cases found
      cases configurable.symm.trans locked
  · next kept =>
    rw [← ownDescriptor?, iff_self_and, ← Bool.not_eq_true]
    exact fun owned configurable =>
      kept ⟨member, deletable_iff.mpr ⟨descriptor, owned, configurable⟩⟩

theorem ownDescriptor?_eq_none_iff (member : level ∈ levels) :
    after.ownDescriptor? level name = none ↔
      ∀ known, before.ownDescriptor? level name = some known → known.configurable = true := by
  rw [Option.eq_none_iff_forall_ne_some]
  apply forall_congr'
  intro known
  rw [ne_eq, deletes.ownDescriptor?_eq_some_iff member, not_and, Bool.not_eq_false]

private theorem deletable_eq_false (member : level ∈ levels) :
    after.deletable level name = false := by
  rw [← Bool.not_eq_true, deletable_iff]
  rintro ⟨descriptor, owned, configurable⟩
  cases configurable.symm.trans ((deletes.ownDescriptor?_eq_some_iff member).mp owned).2

private theorem ownNames_of_deletable (member : level ∈ levels)
    (deletable : before.deletable level name = true) :
    after.ownNames level = (before.ownNames level).filter (· ≠ name) := by
  rw [ownNames, deletes.members, if_pos ⟨member, deletable⟩, MemberTable.names_erase]
  rfl

private theorem ownDescriptor?_of_deletable (member : level ∈ levels)
    (deletable : before.deletable level name = true) :
    after.ownDescriptor? level name = none := by
  rw [deletes.ownDescriptor?_eq_none_iff member]
  intro known owned
  rcases deletable_iff.mp deletable with ⟨descriptor, found, configurable⟩
  cases owned.symm.trans found
  exact configurable

end Deletes

section Lookup

variable {name : String} {object level : ObjectId} {descriptor : Descriptor} {before after : Store}
  (deletes : Deletes name (before.ancestry object) before after)

include deletes

theorem Deletes.lookup_eq_some_iff : after.lookup object name = some (level, descriptor) ↔
    ∃ nearer farther, before.ancestry object = nearer ++ level :: farther ∧
      before.ownDescriptor? level name = some descriptor ∧ descriptor.configurable = false ∧
      ∀ other ∈ nearer, ∀ known, before.ownDescriptor? other name = some known →
        known.configurable = true := by
  rw [Store.lookup_eq_some_iff, ancestry_of_parent_eq deletes.parent object]
  apply exists_congr
  intro nearer
  apply exists_congr
  intro farther
  apply and_congr_right
  intro split
  have within {other : ObjectId} (member : other ∈ nearer ++ level :: farther) :
      other ∈ before.ancestry object := split ▸ member
  rw [deletes.ownDescriptor?_eq_some_iff (within (by simp)), and_assoc]
  refine and_congr_right fun _ => and_congr_right fun _ => forall₂_congr fun other member => ?_
  exact deletes.ownDescriptor?_eq_none_iff (within (List.mem_append_left _ member))

private theorem Deletes.has_iff : after.has object name = true ↔
    ∃ level ∈ before.ancestry object, ∃ descriptor,
      before.ownDescriptor? level name = some descriptor ∧ descriptor.configurable = false := by
  rw [has, lookup, List.findSome?_isSome_iff, ancestry_of_parent_eq deletes.parent object]
  refine exists_congr fun level => and_congr_right fun member => ?_
  rw [Option.isSome_map, Option.isSome_iff_exists]
  exact exists_congr fun descriptor => deletes.ownDescriptor?_eq_some_iff member

end Lookup

private theorem removeFrom_eq (name : String) {levels : List ObjectId} (nodup : levels.Nodup)
    (store : Store) :
    (removeFrom name levels store).1 = levels.countP (store.deletable · name) ∧
      Deletes name levels store (removeFrom name levels store).2 := by
  induction levels generalizing store with
  | nil => exact ⟨rfl, .nil name store⟩
  | cons level levels induction =>
      rw [List.nodup_cons] at nodup
      rcases induction nodup.2 (store.delete level name).2 with ⟨counted, deletes⟩
      have same : levels.countP ((store.delete level name).2.deletable · name) =
          levels.countP (store.deletable · name) := by
        apply List.countP_congr
        intro other member
        have different : other ≠ level := fun equal => nodup.1 (equal ▸ member)
        rw [deletable_congr (store.members_delete_other name different)]
      refine ⟨?_, .cons nodup.1 deletes⟩
      rw [removeFrom, List.countP_cons, ← same, ← counted, delete_eq]
      dsimp only
      split <;> rfl

theorem removeFrom_of_locked {name : String} {levels : List ObjectId} {store : Store}
    (locked : ∀ level ∈ levels, store.deletable level name = false) :
    removeFrom name levels store = (0, store) := by
  induction levels with
  | nil => rfl
  | cons level levels induction =>
      have kept : store.delete level name = (false, store) := by
        rw [delete_eq, locked level List.mem_cons_self]
        rfl
      rw [removeFrom, kept]
      dsimp only
      rw [induction fun other member => locked other (List.mem_cons_of_mem level member)]
      rfl

/-! ### Removing -/

structure Removed (object : ObjectId) (name : String) (count : Nat) (before after : Store) :
    Prop where
  /-- As many levels as own the name configurably. -/
  counted : count = (before.ancestry object).countP (before.deletable · name)
  /-- Nothing but members of objects is written. -/
  confined : after = { before with objects := after.objects }
  size : after.objects.size = before.objects.size
  parent : ∀ other, after.parent other = before.parent other
  /-- At these levels the definition is gone, and the other names keep their order. -/
  deleted : ∀ level ∈ before.ancestry object, before.deletable level name = true →
    after.ownDescriptor? level name = none ∧
      after.ownNames level = (before.ownNames level).filter (· ≠ name)
  /-- Other objects, and levels that own the name locked or not at all, own what they did. -/
  kept : ∀ level, ¬(level ∈ before.ancestry object ∧ before.deletable level name = true) →
    after.members level = before.members level
  others : ∀ level other, other ≠ name →
    after.ownDescriptor? level other = before.ownDescriptor? level other
  /-- The name is found on the nearest level that owns it locked. -/
  found : ∀ level descriptor, after.lookup object name = some (level, descriptor) ↔
    ∃ nearer farther, before.ancestry object = nearer ++ level :: farther ∧
      before.ownDescriptor? level name = some descriptor ∧ descriptor.configurable = false ∧
      ∀ other ∈ nearer, ∀ known, before.ownDescriptor? other name = some known →
        known.configurable = true
  /-- It is found only if there is such a level. -/
  has : after.has object name = true ↔ ∃ level ∈ before.ancestry object, ∃ descriptor,
    before.ownDescriptor? level name = some descriptor ∧ descriptor.configurable = false
  /-- Then there is nothing left to remove. -/
  again : after.remove object name = (0, after)

/-- Removing a name deletes it from exactly those levels of the ancestry that own it configurably,
and counts them; nothing else changes, locked definitions are found from then on, nearest first, and
removing the name again does nothing. -/
theorem remove_erases {store : Store} (rooted : store.Rooted) (object : ObjectId)
    (name : String) :
    Removed object name (store.remove object name).1 store (store.remove object name).2 := by
  rcases removeFrom_eq name (nodup_ancestry rooted object) store with ⟨counted, deletes⟩
  rw [← remove] at counted deletes
  exact {
    counted
    confined := deletes.confined
    size := deletes.size
    parent := deletes.parent
    deleted := fun level member deletable =>
      ⟨deletes.ownDescriptor?_of_deletable member deletable,
        deletes.ownNames_of_deletable member deletable⟩
    kept := fun level kept => by rw [deletes.members, if_neg kept]
    others := fun level other different => deletes.ownDescriptor?_other different level
    found := fun level descriptor => deletes.lookup_eq_some_iff
    has := deletes.has_iff
    again := by
      rw [remove, ancestry_of_parent_eq deletes.parent object]
      exact removeFrom_of_locked fun level member => deletes.deletable_eq_false member }

/-- Four objects, each delegating to the one before, that all own a name, every other one of them
locked. -/
def pinned : Store where
  objects := #[
    { members := .ofEntries [("size", ⟨.data (.text "first") true, true, false⟩)] },
    { parent := some ⟨0⟩, members := .ofEntries [("shape", .ofValue .null),
        ("size", .ofValue (.text "second")), ("colour", .ofValue .null)] },
    { parent := some ⟨1⟩,
      members := .ofEntries [("size", ⟨.data (.text "third") false, false, false⟩)] },
    { parent := some ⟨2⟩, members := .ofEntries [("size", .ofValue (.text "fourth"))] }]

/-- Two definitions are deleted, beyond a locked one too, which is then the one that is found. -/
theorem remove_erases_of_pinned :
    pinned.Rooted ∧ (pinned.remove ⟨3⟩ "size").1 = 2 ∧
      (pinned.remove ⟨3⟩ "size").2.ownNames ⟨1⟩ = ["shape", "colour"] ∧
      (pinned.remove ⟨3⟩ "size").2.lookup ⟨3⟩ "size" =
        some (⟨2⟩, ⟨.data (.text "third") false, false, false⟩) := by
  have rooted : pinned.Rooted := rooted_iff.mpr (by decide)
  have removed := remove_erases rooted ⟨3⟩ "size"
  refine ⟨rooted, removed.counted.trans (by decide), ?_, ?_⟩
  · exact (removed.deleted ⟨1⟩ (by decide) (by decide)).2.trans (by decide)
  · refine (removed.found _ _).mpr ⟨[⟨3⟩], [⟨1⟩, ⟨0⟩], by decide, rfl, rfl, ?_⟩
    intro other member known owned
    rw [List.mem_singleton.mp member] at owned
    cases owned
    rfl

end TraitComposition.Store
