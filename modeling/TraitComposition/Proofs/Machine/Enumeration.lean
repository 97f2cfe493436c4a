import TraitComposition.Proofs.Machine.Delegation

/-!
Enumeration in reachable worlds. The names that an object shows are those whose nearest definition
is enumerable. They come in the order of the levels on which these definitions are, nearest first,
and on one level in definition order.
-/
namespace TraitComposition

namespace Store

/-- Whether the definition of one name is found on a nearer level than that of another, or earlier
on the same level. -/
def Precedes (store : Store) (levels : List ObjectId) (first second : String) : Prop :=
  ∃ near far nearest farthest,
    store.nearest? levels first = some (near, nearest) ∧
    store.nearest? levels second = some (far, farthest) ∧
    ([near, far].Sublist levels ∨ near = far ∧ [first, second].Sublist (store.ownNames near))

section Levels

variable {store : Store} {level : ObjectId} {levels : List ObjectId} {name first second : String}

private theorem nearest?_of_own {descriptor : Descriptor}
    (owned : store.ownDescriptor? level name = some descriptor) (levels : List ObjectId) :
    store.nearest? (level :: levels) name = some (level, descriptor) := by
  rw [nearest?, List.findSome?_cons, owned, Option.map_some]

private theorem nearest?_of_not_owned (missing : name ∉ store.ownNames level)
    (levels : List ObjectId) :
    store.nearest? (level :: levels) name = store.nearest? levels name := by
  rw [nearest?, List.findSome?_cons, ownDescriptor?, MemberTable.find?_eq_none_iff.mpr missing,
    Option.map_none]
  rfl

private theorem mem_of_nearest? {near : ObjectId} {descriptor : Descriptor}
    (found : store.nearest? levels name = some (near, descriptor)) : near ∈ levels := by
  rcases List.exists_of_findSome?_eq_some found with ⟨level, member, owned⟩
  rcases Option.map_eq_some_iff.mp owned with ⟨_, _, equal⟩
  cases equal
  exact member

private theorem nearest?_of_mem_visibleNames {hidden : Std.TreeSet String}
    (listed : name ∈ visibleNames hidden (levels.map store.members)) :
    ∃ near descriptor, store.nearest? levels name = some (near, descriptor) := by
  rcases (mem_visibleNames.mp listed).2 with ⟨descriptor, found, _⟩
  have resolved : (store.nearest? levels name).map (·.2) = some descriptor := by
    rw [map_nearest?, ← found, List.findSome?_map]
    rfl
  rcases Option.map_eq_some_iff.mp resolved with ⟨⟨near, _⟩, found, _⟩
  exact ⟨near, _, found⟩

namespace Precedes

theorem of_sublist (order : [first, second].Sublist (store.ownNames level)) :
    store.Precedes (level :: levels) first second := by
  have owned {name : String} (member : name ∈ [first, second]) :
      ∃ descriptor, store.ownDescriptor? level name = some descriptor :=
    MemberTable.mem_names_iff.mp (order.subset member)
  rcases owned List.mem_cons_self with ⟨nearest, ownFirst⟩
  rcases owned (List.mem_cons_of_mem first List.mem_cons_self) with ⟨farthest, ownSecond⟩
  exact ⟨level, level, nearest, farthest, nearest?_of_own ownFirst levels,
    nearest?_of_own ownSecond levels, .inr ⟨rfl, order⟩⟩

theorem of_owned (owned : first ∈ store.ownNames level) (missing : second ∉ store.ownNames level)
    {far : ObjectId} {descriptor : Descriptor}
    (found : store.nearest? levels second = some (far, descriptor)) :
    store.Precedes (level :: levels) first second := by
  rcases MemberTable.mem_names_iff.mp owned with ⟨nearest, own⟩
  refine ⟨level, far, nearest, descriptor, nearest?_of_own own levels, ?_, .inl ?_⟩
  · rw [nearest?_of_not_owned missing, found]
  · exact (List.singleton_sublist.mpr (mem_of_nearest? found)).cons_cons level

theorem cons (precedes : store.Precedes levels first second)
    (firstMissing : first ∉ store.ownNames level) (secondMissing : second ∉ store.ownNames level) :
    store.Precedes (level :: levels) first second := by
  rcases precedes with ⟨near, far, nearest, farthest, foundFirst, foundSecond, order⟩
  refine ⟨near, far, nearest, farthest, ?_, ?_, order.imp_left (·.cons level)⟩
  · rw [nearest?_of_not_owned firstMissing, foundFirst]
  · rw [nearest?_of_not_owned secondMissing, foundSecond]

end Precedes

private theorem pairwise_visibleNames (store : Store) (hidden : Std.TreeSet String)
    (levels : List ObjectId) :
    (visibleNames hidden (levels.map store.members)).Pairwise (store.Precedes levels) := by
  induction levels generalizing hidden with
  | nil => exact List.Pairwise.nil
  | cons level levels induction =>
      have ordered : ((store.members level).keys.filter (· ∉ hidden)).Sublist
          (store.ownNames level) :=
        List.filter_sublist.trans List.filter_sublist
      -- What this level owns, enumerable or not, is hidden from here on.
      have missing {name : String}
          (listed : name ∈ visibleNames (hidden.insertMany (store.members level).names)
            (levels.map store.members)) : name ∉ store.ownNames level := by
        have shown := (mem_visibleNames.mp listed).1
        rw [Std.TreeSet.mem_insertMany_list, not_or] at shown
        simpa [ownNames] using shown.2
      rw [List.map_cons, visibleNames, List.pairwise_append]
      refine ⟨?_, ?_, ?_⟩
      · exact List.pairwise_iff_forall_sublist.mpr fun order => .of_sublist (order.trans ordered)
      · exact (induction _).imp_of_mem fun listed listedToo precedes =>
          precedes.cons (missing listed) (missing listedToo)
      · intro first near second behind
        rcases nearest?_of_mem_visibleNames behind with ⟨far, descriptor, found⟩
        exact .of_owned (ordered.subset near) (missing behind) found

end Levels

end Store

namespace World

variable {σ : Type}

/-- In every reachable world an object shows, once each, the names whose nearest definition, the
one that looking them up comes to, is enumerable, whatever levels farther away define. A name that
is found on a nearer level comes before those found on farther ones, and on the same level the one
that was defined first comes first. No level occurs twice. -/
theorem enumerates_nearest {world : World σ} (reachable : world.Reachable) (object : ObjectId) :
    (world.store.enumerableNames object).Nodup ∧
    (∀ name, name ∈ world.store.enumerableNames object ↔
      ∃ level descriptor, world.store.lookup object name = some (level, descriptor) ∧
        descriptor.enumerable = true) ∧
    ((world.store.enumerableNames object).Pairwise fun first second =>
      ∃ near far nearest farthest,
        world.store.lookup object first = some (near, nearest) ∧
        world.store.lookup object second = some (far, farthest) ∧
        ([near, far].Sublist (world.store.ancestry object) ∨
          near = far ∧ [first, second].Sublist (world.store.ownNames near))) ∧
    (world.store.ancestry object).Nodup := by
  refine ⟨Store.nodup_enumerableNames _ _, fun name => ?_,
    Store.pairwise_visibleNames world.store {} (world.store.ancestry object),
    Store.nodup_ancestry reachable.rooted object⟩
  rw [Store.mem_enumerableNames_iff, Store.descriptor?]
  constructor
  · rintro ⟨descriptor, resolved, enumerable⟩
    rcases Option.map_eq_some_iff.mp resolved with ⟨⟨level, _⟩, found, rfl⟩
    exact ⟨level, _, found, enumerable⟩
  · rintro ⟨level, descriptor, found, enumerable⟩
    exact ⟨descriptor, by rw [found, Option.map_some], enumerable⟩

/-- Three objects, each delegating to the one before. The one in the middle defines a name of the
first as not enumerable, and the last one another. -/
def shadowing : World Unit :=
  ((Program.ask (.createObject none) fun _ => .ask (.createObject (some ⟨0⟩)) fun _ =>
    .ask (.createObject (some ⟨1⟩)) fun _ =>
    .ask (.insert ⟨0⟩ "colour" .null) fun _ => .ask (.insert ⟨0⟩ "size" .null) fun _ =>
    .ask (.insert ⟨0⟩ "shape" .null) fun _ =>
    .ask (.define ⟨1⟩ "colour" ⟨.data .null true, false, true⟩) fun _ =>
    .ask (.insert ⟨1⟩ "weight" .null) fun _ => .ask (.insert ⟨2⟩ "shape" .null) fun _ =>
    .done (.ok .undefined)).run (.ofBudget 1)).run { state := () } |>.2

/-- What is not enumerable in the middle hides the name, and the shape, which is found first, comes
before the size. -/
theorem enumerates_nearest_of_shadowing :
    shadowing.store.enumerableNames ⟨2⟩ = ["shape", "weight", "size"] ∧
      (¬∃ level descriptor, shadowing.store.lookup ⟨2⟩ "colour" = some (level, descriptor) ∧
        descriptor.enumerable = true) ∧
      ∃ near far nearest farthest,
        shadowing.store.lookup ⟨2⟩ "shape" = some (near, nearest) ∧
        shadowing.store.lookup ⟨2⟩ "size" = some (far, farthest) ∧
        ([near, far].Sublist (shadowing.store.ancestry ⟨2⟩) ∨
          near = far ∧ ["shape", "size"].Sublist (shadowing.store.ownNames near)) := by
  have reachable : shadowing.Reachable := ⟨(), .single (.run (.ofBudget 1) _ _)⟩
  have listed : shadowing.store.enumerableNames ⟨2⟩ = ["shape", "weight", "size"] := by
    decide +kernel
  rcases enumerates_nearest reachable ⟨2⟩ with ⟨_, shown, ordered, _⟩
  rw [listed] at shown ordered
  refine ⟨listed, fun enumerable => absurd ((shown "colour").mpr enumerable) (by decide), ?_⟩
  exact (List.pairwise_cons.mp ordered).1 "size" (by decide)

end World

end TraitComposition
