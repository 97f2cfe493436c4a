import TraitComposition.FirstSeen

/-!
Keeping first occurrences. Keeping them early, of a part that is spliced into a longer
list, makes no difference to keeping them once at the end.
-/
namespace TraitComposition.FirstSeen

variable {α β : Type} [DecidableEq α]

theorem insert_eq_self {items : List α} {item : α} (known : item ∈ items) :
    insert items item = items :=
  if_pos known

private theorem union_insert (items more : List α) (item : α) :
    union items (insert more item) = insert (union items more) item := by
  by_cases known : item ∈ more
  · rw [insert_eq_self known, insert_eq_self (mem_union.mpr (.inr known))]
  · rw [insert, if_neg known, union_append]
    rfl

theorem union_union (items first second : List α) :
    union items (union first second) = union (union items first) second := by
  induction second generalizing first with
  | nil => rfl
  | cons item second induction => rw [union_cons, induction, union_insert, union_cons]

theorem union_eq_append_eraseDups (items more : List α) :
    union items more = items ++ (more.filter (· ∉ items)).eraseDups := by
  induction more generalizing items with
  | nil => simp
  | cons item more induction =>
      by_cases known : item ∈ items
      · rw [union_cons, insert_eq_self known, induction, List.filter_cons_of_neg (by simpa)]
      · rw [union_cons, insert, if_neg known, induction, List.filter_cons_of_pos (by simpa),
          List.eraseDups_cons, List.filter_filter, List.append_assoc, List.singleton_append]
        congr 4
        funext other
        by_cases same : other = item <;> simp [same]

theorem union_eq_self {items more : List α} (known : more ⊆ items) : union items more = items := by
  rw [union_eq_append_eraseDups, List.filter_eq_nil_iff.mpr fun item member => ?_]
  · exact List.append_nil items
  · simpa using known member

theorem union_eq_append {items more : List α} (unique : (items ++ more).Nodup) :
    union items more = items ++ more := by
  induction more generalizing items with
  | nil => rw [List.append_nil, union_nil]
  | cons item more induction =>
      have fresh : item ∉ items := fun member =>
        (List.nodup_append.mp unique).2.2 item member item (List.mem_cons_self ..) rfl
      rw [List.append_cons] at unique
      rw [union_cons, insert, if_neg fresh, induction unique, ← List.append_cons]

theorem union_map [DecidableEq β] {rename : β → α} (injective : Function.Injective rename)
    (items more : List β) :
    union (items.map rename) (more.map rename) = (union items more).map rename := by
  induction more generalizing items with
  | nil => rfl
  | cons item more induction =>
      have inserted : insert (items.map rename) (rename item) = (insert items item).map rename := by
        by_cases known : item ∈ items
        · rw [insert_eq_self known, insert_eq_self (List.mem_map_of_mem known)]
        · have unknown : rename item ∉ items.map rename := by
            intro member
            rcases List.mem_map.mp member with ⟨other, inside, equal⟩
            exact known (injective equal ▸ inside)
          rw [insert, if_neg unknown, insert, if_neg known, List.map_append, List.map_singleton]
      rw [List.map_cons, union_cons, inserted, induction, union_cons]

section Ordered

variable [Ord α] [Std.TransOrd α] [Std.LawfulEqOrd α]

theorem ofList_eq_eraseDups (items : List α) : ofList items = items.eraseDups := by
  rw [ofList_eq_union, union_eq_append_eraseDups, List.nil_append,
    List.filter_eq_self.mpr (by simp)]

theorem ofList_eq_self {items : List α} (unique : items.Nodup) : ofList items = items := by
  rw [ofList_eq_union]
  exact union_eq_append unique

private theorem union_ofList (items more : List α) :
    union items (ofList more) = union items more := by
  rw [ofList_eq_union, union_union, union_nil]

theorem ofList_ofList (items : List α) : ofList (ofList items) = ofList items := by
  rw [ofList_eq_union (ofList items), union_ofList, ← ofList_eq_union]

private theorem union_flatMap_ofList (part : β → List α) (sources : List β) (items : List α) :
    union items (sources.flatMap fun source => ofList (part source)) =
      union items (sources.flatMap part) := by
  induction sources generalizing items with
  | nil => rfl
  | cons source sources induction =>
      rw [List.flatMap_cons, List.flatMap_cons, union_append, union_append, union_ofList,
        induction]

theorem ofList_flatMap_ofList (part : β → List α) (sources : List β) :
    ofList (sources.flatMap fun source => ofList (part source)) =
      ofList (sources.flatMap part) := by
  rw [ofList_eq_union, ofList_eq_union, union_flatMap_ofList]

end Ordered

end TraitComposition.FirstSeen
