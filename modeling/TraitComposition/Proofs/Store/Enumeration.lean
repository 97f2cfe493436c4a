import TraitComposition.Proofs.Store.Lookup

/-!
The enumerable names of an object are those that it resolves to an enumerable member,
each once.
-/
namespace TraitComposition

namespace MemberTable

theorem find?_eq_none_iff {table : MemberTable} {name : String} :
    table.find? name = none ↔ name ∉ table.names := by
  rw [mem_names_iff, ← Option.isSome_iff_exists]
  simp

theorem mem_keys_iff {table : MemberTable} {name : String} :
    name ∈ table.keys ↔ ∃ descriptor, table.find? name = some descriptor ∧
      descriptor.enumerable = true := by
  rw [keys, List.mem_filter, isEnumerable, mem_names_iff]
  constructor
  · rintro ⟨⟨descriptor, found⟩, enumerable⟩
    rw [found] at enumerable
    exact ⟨descriptor, found, enumerable⟩
  · rintro ⟨descriptor, found, enumerable⟩
    rw [found]
    exact ⟨⟨descriptor, rfl⟩, enumerable⟩

theorem keys_insert_empty (name : String) (value : Value) :
    (empty.insert name (.ofValue value)).keys = [name] := by
  have fresh : name ∉ empty.names := by simp
  rw [keys, names_insert_of_not_mem _ fresh, names_empty]
  simp [isEnumerable, Descriptor.ofValue]

end MemberTable

namespace Store

theorem mem_visibleNames {hidden : Std.TreeSet String} {tables : List MemberTable}
    {name : String} :
    name ∈ visibleNames hidden tables ↔ name ∉ hidden ∧
      ∃ descriptor, tables.findSome? (·.find? name) = some descriptor ∧
        descriptor.enumerable = true := by
  induction tables generalizing hidden with
  | nil => simp [visibleNames]
  | cons table tables induction =>
      rw [visibleNames, List.mem_append, induction, List.mem_filter, MemberTable.mem_keys_iff,
        Std.TreeSet.mem_insertMany_list, List.findSome?_cons]
      cases found : table.find? name with
      | none => simp [MemberTable.find?_eq_none_iff.mp found]
      | some descriptor =>
          have owned : name ∈ table.names := MemberTable.mem_names_iff.mpr ⟨descriptor, found⟩
          simp [owned, and_comm]

private theorem nodup_visibleNames (hidden : Std.TreeSet String) (tables : List MemberTable) :
    (visibleNames hidden tables).Nodup := by
  induction tables generalizing hidden with
  | nil => exact List.nodup_nil
  | cons table tables induction =>
      rw [visibleNames, List.nodup_append]
      refine ⟨(table.nodup_names.filter _).filter _, induction _, ?_⟩
      intro name near other far equal
      subst equal
      have owned : name ∈ table.names :=
        (List.mem_filter.mp (List.mem_filter.mp near).1).1
      have shown := (mem_visibleNames.mp far).1
      rw [Std.TreeSet.mem_insertMany_list] at shown
      simp [owned] at shown

theorem nodup_enumerableNames (store : Store) (object : ObjectId) :
    (store.enumerableNames object).Nodup :=
  nodup_visibleNames _ _

def nearest? (store : Store) (levels : List ObjectId) (name : String) :
    Option (ObjectId × Descriptor) :=
  levels.findSome? fun level =>
    (store.ownDescriptor? level name).map fun descriptor => (level, descriptor)

theorem map_nearest? (store : Store) (levels : List ObjectId) (name : String) :
    (store.nearest? levels name).map (·.2) =
      levels.findSome? fun level => store.ownDescriptor? level name := by
  rw [nearest?, List.map_findSome?]
  congr 1
  funext level
  cases owned : store.ownDescriptor? level name <;> simp [owned]

theorem descriptor?_eq_findSome? (store : Store) (object : ObjectId) (name : String) :
    store.descriptor? object name =
      (store.ancestry object).findSome? fun level => store.ownDescriptor? level name :=
  store.map_nearest? (store.ancestry object) name

theorem mem_enumerableNames_iff {store : Store} {object : ObjectId} {name : String} :
    name ∈ store.enumerableNames object ↔
      ∃ descriptor, store.descriptor? object name = some descriptor ∧
        descriptor.enumerable = true := by
  rw [enumerableNames, mem_visibleNames, descriptor?_eq_findSome?, List.findSome?_map]
  simp [ownDescriptor?, Function.comp_def]

theorem has_of_mem_enumerableNames {store : Store} {object : ObjectId} {name : String}
    (listed : name ∈ store.enumerableNames object) : store.has object name = true := by
  rcases mem_enumerableNames_iff.mp listed with ⟨_, resolved, _⟩
  exact has_of_descriptor? resolved

theorem exists_lookup_of_mem_enumerableNames {store : Store} {object : ObjectId} {name : String}
    (listed : name ∈ store.enumerableNames object) :
    ∃ owner descriptor, store.lookup object name = some (owner, descriptor) := by
  rcases mem_enumerableNames_iff.mp listed with ⟨_, resolved, _⟩
  rcases Option.map_eq_some_iff.mp resolved with ⟨⟨owner, descriptor⟩, found, _⟩
  exact ⟨owner, descriptor, found⟩

theorem hasObject_of_descriptor? {store : Store} {object : ObjectId} {name : String}
    {descriptor : Descriptor} (resolved : store.descriptor? object name = some descriptor) :
    store.hasObject object = true := by
  cases known : store.hasObject object with
  | true => rfl
  | false =>
      have empty := object_of_not_hasObject known
      have levels : store.ancestry object = [object] := by
        rw [ancestry, ancestryWithin, parent, empty]
      rw [descriptor?_eq_findSome?, levels, List.findSome?_cons, ownDescriptor?, members,
        empty] at resolved
      simp [MemberTable.find?_empty] at resolved

theorem descriptor?_of_own {store : Store} {object : ObjectId} {name : String}
    {descriptor : Descriptor} (owned : store.ownDescriptor? object name = some descriptor) :
    store.descriptor? object name = some descriptor := by
  rw [descriptor?, lookup_of_own owned]
  rfl

theorem mem_enumerableNames_of_own {store : Store} {object : ObjectId} {name : String}
    {descriptor : Descriptor} (owned : store.ownDescriptor? object name = some descriptor)
    (enumerable : descriptor.enumerable = true) : name ∈ store.enumerableNames object :=
  mem_enumerableNames_iff.mpr ⟨descriptor, descriptor?_of_own owned, enumerable⟩

theorem enumerableNames_congr {before after : Store} {object : ObjectId}
    (sameAncestry : after.ancestry object = before.ancestry object)
    (sameMembers : ∀ level ∈ before.ancestry object, after.members level = before.members level) :
    after.enumerableNames object = before.enumerableNames object := by
  rw [enumerableNames, enumerableNames, sameAncestry, List.map_congr_left sameMembers]

end Store

end TraitComposition
