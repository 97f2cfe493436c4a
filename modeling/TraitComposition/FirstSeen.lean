import Std.Data.TreeSet

/-!
Lists without repetition, ordered by first occurrence.
-/
namespace TraitComposition.FirstSeen

variable {α : Type} [DecidableEq α]

def insert (items : List α) (item : α) : List α :=
  if item ∈ items then items else items ++ [item]

def union (items more : List α) : List α :=
  more.foldl insert items

@[simp] theorem union_nil (items : List α) : union items [] = items := rfl

@[simp] theorem union_cons (items more : List α) (item : α) :
    union items (item :: more) = union (insert items item) more := rfl

theorem union_append (items first second : List α) :
    union items (first ++ second) = union (union items first) second := by
  simp [union, List.foldl_append]

@[simp] theorem mem_insert {items : List α} {item other : α} :
    other ∈ insert items item ↔ other ∈ items ∨ other = item := by
  unfold insert
  split <;> simp_all

@[simp] theorem mem_union {items more : List α} {other : α} :
    other ∈ union items more ↔ other ∈ items ∨ other ∈ more := by
  induction more generalizing items with
  | nil => simp
  | cons item more induction => simp [induction, or_assoc]

theorem nodup_insert {items : List α} {item : α} (unique : items.Nodup) :
    (insert items item).Nodup := by
  unfold insert
  split
  · exact unique
  · rename_i fresh
    rw [List.nodup_append]
    refine ⟨unique, by simp, ?_⟩
    intro left leftMember right rightMember equal
    simp only [List.mem_singleton] at rightMember
    exact fresh (rightMember ▸ equal ▸ leftMember)

theorem nodup_union {items more : List α} (unique : items.Nodup) :
    (union items more).Nodup := by
  induction more generalizing items with
  | nil => exact unique
  | cons item more induction => exact induction (nodup_insert unique)

/-! ### From a list -/

section Ordered

variable [Ord α]

def unseen (seen : Std.TreeSet α) : List α → List α
  | [] => []
  | item :: items =>
      if item ∈ seen then unseen seen items else item :: unseen (seen.insert item) items

def ofList (items : List α) : List α :=
  unseen {} items

variable [Std.TransOrd α] [Std.LawfulEqOrd α]

theorem union_eq_append_unseen {items : List α} {seen : Std.TreeSet α}
    (agree : ∀ item, item ∈ seen ↔ item ∈ items) (more : List α) :
    union items more = items ++ unseen seen more := by
  induction more generalizing items seen with
  | nil => simp [unseen]
  | cons item more induction =>
      by_cases known : item ∈ items
      · rw [union_cons, insert, if_pos known, unseen, if_pos ((agree item).mpr known)]
        exact induction agree
      · rw [union_cons, insert, if_neg known, unseen, if_neg (mt (agree item).mp known),
          induction fun other => ?_, List.append_assoc, List.singleton_append]
        rw [Std.TreeSet.mem_insert, Std.compare_eq_iff_eq, List.mem_append, List.mem_singleton,
          agree, or_comm, eq_comm]

theorem ofList_eq_union (items : List α) : ofList items = union [] items := by
  have agree : ∀ item, item ∈ ({} : Std.TreeSet α) ↔ item ∈ [] := by simp
  rw [union_eq_append_unseen agree, List.nil_append, ofList]

@[simp] theorem mem_ofList {items : List α} {other : α} :
    other ∈ ofList items ↔ other ∈ items := by
  simp [ofList_eq_union]

theorem nodup_ofList (items : List α) : (ofList items).Nodup := by
  rw [ofList_eq_union]
  exact nodup_union List.nodup_nil

end Ordered

example : ofList [2, 1, 2, 3, 1] = [2, 1, 3] := by decide

end TraitComposition.FirstSeen
