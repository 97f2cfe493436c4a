import Std.Data.ExtTreeMap
import TraitComposition.Descriptor

/-!
Tables of named members in definition order. Storing under a known name keeps the
place of the name, a new name goes to the end, and erasing keeps the order of the
rest. A table is determined by its names in order and by what it finds under each.
-/
namespace TraitComposition

structure MemberTable where
  /-- The names, in definition order. -/
  order : Array String := #[]
  descriptors : Std.ExtTreeMap String Descriptor := {}
  nodup_order : order.toList.Nodup := by simp
  mem_order_iff : ∀ name, name ∈ order.toList ↔ name ∈ descriptors := by simp

namespace MemberTable

def empty : MemberTable := {}

instance : Inhabited MemberTable :=
  ⟨empty⟩

def names (table : MemberTable) : List String :=
  table.order.toList

def find? (table : MemberTable) (name : String) : Option Descriptor :=
  table.descriptors[name]?

def contains (table : MemberTable) (name : String) : Bool :=
  (table.find? name).isSome

def entries (table : MemberTable) : List (String × Descriptor) :=
  table.names.filterMap fun name => (table.find? name).map fun descriptor => (name, descriptor)

def isEnumerable (table : MemberTable) (name : String) : Bool :=
  (table.find? name).any Descriptor.enumerable

def keys (table : MemberTable) : List String :=
  table.names.filter table.isEnumerable

def insert (table : MemberTable) (name : String) (descriptor : Descriptor) : MemberTable :=
  if known : name ∈ table.descriptors then
    { table with
      descriptors := table.descriptors.insert name descriptor
      mem_order_iff := fun other => by
        have := table.mem_order_iff other
        grind }
  else
    { order := table.order.push name
      descriptors := table.descriptors.insert name descriptor
      nodup_order := by
        have fresh : name ∉ table.order.toList := mt (table.mem_order_iff name).mp known
        simp only [Array.toList_push, List.nodup_append]
        refine ⟨table.nodup_order, by simp, ?_⟩
        intro left leftMember right rightMember equal
        simp only [List.mem_singleton] at rightMember
        exact fresh (rightMember ▸ equal ▸ leftMember)
      mem_order_iff := fun other => by
        have := table.mem_order_iff other
        grind }

def erase (table : MemberTable) (name : String) : MemberTable where
  order := table.order.filter (· ≠ name)
  descriptors := table.descriptors.erase name
  nodup_order := by
    rw [Array.toList_filter]
    exact List.Pairwise.filter _ table.nodup_order
  mem_order_iff := fun other => by
    have := table.mem_order_iff other
    grind

def ofEntries (entries : List (String × Descriptor)) : MemberTable :=
  entries.foldl (fun table entry => table.insert entry.1 entry.2) empty

@[ext] theorem ext {left right : MemberTable} (names : left.names = right.names)
    (found : ∀ name, left.find? name = right.find? name) : left = right := by
  obtain ⟨leftOrder, leftDescriptors, _, _⟩ := left
  obtain ⟨rightOrder, rightDescriptors, _, _⟩ := right
  obtain rfl : leftOrder = rightOrder := Array.toList_inj.mp names
  obtain rfl : leftDescriptors = rightDescriptors := Std.ExtTreeMap.ext_getElem? found
  rfl

/-! ### Reading after writing -/

@[simp] theorem find?_empty (name : String) : empty.find? name = none := by
  simp [find?, empty]

@[simp] theorem find?_insert_same (table : MemberTable) (name : String)
    (descriptor : Descriptor) :
    (table.insert name descriptor).find? name = some descriptor := by
  unfold insert find?
  split <;> simp

theorem find?_insert_other (table : MemberTable) {name other : String}
    (descriptor : Descriptor) (different : other ≠ name) :
    (table.insert name descriptor).find? other = table.find? other := by
  unfold insert find?
  split <;> grind

@[simp] theorem find?_erase_same (table : MemberTable) (name : String) :
    (table.erase name).find? name = none := by
  simp [erase, find?]

theorem find?_erase_other (table : MemberTable) {name other : String}
    (different : other ≠ name) : (table.erase name).find? other = table.find? other := by
  unfold erase find?
  grind

/-! ### Names -/

@[simp] theorem names_empty : empty.names = [] :=
  rfl

theorem nodup_names (table : MemberTable) : table.names.Nodup :=
  table.nodup_order

theorem mem_names_iff {table : MemberTable} {name : String} :
    name ∈ table.names ↔ ∃ descriptor, table.find? name = some descriptor := by
  rw [← Option.isSome_iff_exists]
  exact (table.mem_order_iff name).trans Std.ExtTreeMap.mem_iff_isSome_getElem?

theorem names_insert_of_mem {table : MemberTable} {name : String} (descriptor : Descriptor)
    (member : name ∈ table.names) : (table.insert name descriptor).names = table.names := by
  have known : name ∈ table.descriptors := (table.mem_order_iff name).mp member
  simp [insert, names, known]

theorem names_insert_of_not_mem {table : MemberTable} {name : String}
    (descriptor : Descriptor) (fresh : name ∉ table.names) :
    (table.insert name descriptor).names = table.names ++ [name] := by
  have unknown : name ∉ table.descriptors := mt (table.mem_order_iff name).mpr fresh
  simp [insert, names, unknown]

theorem names_erase (table : MemberTable) (name : String) :
    (table.erase name).names = table.names.filter (· ≠ name) := by
  simp [erase, names]

theorem insert_of_find? {table : MemberTable} {name : String} {descriptor : Descriptor}
    (found : table.find? name = some descriptor) : table.insert name descriptor = table := by
  ext1
  · exact names_insert_of_mem descriptor (mem_names_iff.mpr ⟨descriptor, found⟩)
  · rename_i other
    by_cases equal : other = name
    · simp [equal, found]
    · exact find?_insert_other table descriptor equal

example : ((ofEntries [("b", .ofValue .null), ("a", .ofValue .null), ("b", .ofValue .null)]).erase
    "c").names = ["b", "a"] := by
  decide

end MemberTable

end TraitComposition
