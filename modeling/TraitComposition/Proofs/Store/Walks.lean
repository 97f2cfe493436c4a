import TraitComposition.Proofs.Store.Removal

/-!
Walks along delegation. A walk goes from an object to its parent, and so on, until it has its
answer or there is no parent left; it knows no bound on its steps and does not mark what it has
seen. In a rooted store every walk ends, for it can only come to older objects, and what it
answers with is what the ancestry of the object, taken as a list, gives.
-/
namespace TraitComposition.Store

/-- What a walk does. At every object it comes to it looks at the object, and may change the
store; it then answers at once, or goes on with what it has gathered. -/
structure Walk (γ α : Type) where
  visit : ObjectId → γ → Store → (α ⊕ γ) × Store
  /-- The answer when nothing is left to visit. -/
  finish : γ → α

namespace Walk

variable {γ α : Type} (walk : Walk γ α)

/-- Whether a walk that has come to an object, if to any, ends with an answer and a store. The
next object is the parent that the visited one has once it was visited. -/
inductive Ends : Option ObjectId → γ → Store → α → Store → Prop
  | top (gathered : γ) (store : Store) : Ends none gathered store (walk.finish gathered) store
  | stop {level : ObjectId} {gathered : γ} {store after : Store} {answer : α}
      (visited : walk.visit level gathered store = (.inl answer, after)) :
      Ends (some level) gathered store answer after
  | onward {level : ObjectId} {gathered more : γ} {store between after : Store} {answer : α}
      (visited : walk.visit level gathered store = (.inr more, between))
      (rest : Ends (between.parent level) more between answer after) :
      Ends (some level) gathered store answer after

def along : List ObjectId → γ → Store → α × Store
  | [], gathered, store => (walk.finish gathered, store)
  | level :: levels, gathered, store =>
      match walk.visit level gathered store with
      | (.inl answer, after) => (answer, after)
      | (.inr more, between) => along levels more between

def KeepsParents : Prop :=
  ∀ level gathered store object, (walk.visit level gathered store).2.parent object =
    store.parent object

variable {walk} {store : Store}

section Ends

variable (keeps : walk.KeepsParents) (rooted : store.Rooted)

include keeps rooted

theorem ends_along (object : ObjectId) :
    ∀ (gathered : γ) (now : Store), (∀ other, now.parent other = store.parent other) →
      walk.Ends (some object) gathered now
        (walk.along (store.ancestry object) gathered now).1
        (walk.along (store.ancestry object) gathered now).2 := by
  induction object using rooted.delegation_induction with
  | each object induction =>
      intro gathered now same
      rw [ancestry_eq rooted object, along]
      rcases visited : walk.visit object gathered now with ⟨answer | more, between⟩
      · exact .stop visited
      · refine .onward visited ?_
        have sameBetween (other : ObjectId) : between.parent other = store.parent other := by
          have kept := keeps object gathered now other
          rw [visited] at kept
          exact kept.trans (same other)
        rw [sameBetween object]
        cases delegates : store.parent object with
        | none => exact .top more between
        | some parent => exact induction parent delegates more between sameBetween

private theorem ends_of_along {object : ObjectId} {gathered : γ} {answer : α} {after : Store}
    (comes : walk.along (store.ancestry object) gathered store = (answer, after)) :
    walk.Ends (some object) gathered store answer after := by
  have ends := ends_along keeps rooted object gathered store fun _ => rfl
  rw [comes] at ends
  exact ends

theorem ends_of_along_ancestors {object : ObjectId} {gathered : γ} {answer : α} {after : Store}
    (comes : walk.along (store.ancestors object) gathered store = (answer, after)) :
    walk.Ends (store.parent object) gathered store answer after := by
  rw [ancestors_eq rooted] at comes
  cases delegates : store.parent object with
  | none =>
      rw [delegates] at comes
      cases comes
      exact .top gathered store
  | some parent =>
      rw [delegates] at comes
      exact ends_of_along keeps rooted comes

end Ends

def looking (look : Store → ObjectId → γ → α ⊕ γ) (finish : γ → α) : Walk γ α where
  visit level gathered store := (look store level gathered, store)
  finish := finish

private theorem keepsParents_looking (look : Store → ObjectId → γ → α ⊕ γ) (finish : γ → α) :
    (looking look finish).KeepsParents :=
  fun _ _ _ _ => rfl

/-! ### The walks -/

def lookup (name : String) : Walk Unit (Option (ObjectId × Descriptor)) :=
  looking (fun store level gathered =>
      match store.ownDescriptor? level name with
      | some descriptor => .inl (some (level, descriptor))
      | none => .inr gathered)
    fun _ => none

/-- Gathers the names that are owned, and of these the ones that are enumerable where they are
first met. -/
def enumerableNames : Walk (Std.TreeSet String × List String) (List String) :=
  looking (fun store level gathered =>
      .inr (gathered.1.insertMany (store.ownNames level),
        gathered.2 ++ (store.keys level).filter (· ∉ gathered.1)))
    Prod.snd

def remove (name : String) : Walk Nat Nat where
  visit level count store :=
    let (deleted, after) := store.delete level name
    (.inr (if deleted then count + 1 else count), after)
  finish := id

def seek (sought : Store → ObjectId → Bool) : Walk Unit Bool :=
  looking (fun store level gathered => if sought store level then .inl true else .inr gathered)
    fun _ => false

private theorem keepsParents_seek (sought : Store → ObjectId → Bool) : (seek sought).KeepsParents :=
  keepsParents_looking _ _

private theorem keepsParents_remove (name : String) : (remove name).KeepsParents :=
  fun level _ store object => store.parent_delete level name object

/-! ### What the walks come to -/

private theorem along_lookup (store : Store) (name : String) (levels : List ObjectId) :
    (lookup name).along levels () store =
      (levels.findSome? fun level =>
        (store.ownDescriptor? level name).map fun descriptor => (level, descriptor), store) := by
  induction levels with
  | nil => rfl
  | cons level levels induction =>
      rw [along, List.findSome?_cons]
      simp only [lookup, looking]
      cases store.ownDescriptor? level name with
      | none => exact induction
      | some descriptor => rfl

private theorem along_enumerableNames (store : Store) (levels : List ObjectId) :
    ∀ (hidden : Std.TreeSet String) (names : List String),
      enumerableNames.along levels (hidden, names) store =
        (names ++ visibleNames hidden (levels.map store.members), store) := by
  induction levels with
  | nil =>
      intro hidden names
      rw [List.map_nil, visibleNames, List.append_nil]
      rfl
  | cons level levels induction =>
      intro hidden names
      rw [List.map_cons, visibleNames, ← List.append_assoc]
      exact induction _ _

private theorem along_remove (name : String) (levels : List ObjectId) :
    ∀ (count : Nat) (store : Store),
      (remove name).along levels count store =
        (count + (removeFrom name levels store).1, (removeFrom name levels store).2) := by
  induction levels with
  | nil => exact fun _ _ => rfl
  | cons level levels induction =>
      intro count store
      simp only [along, remove, removeFrom]
      refine (induction _ _).trans (Prod.ext ?_ rfl)
      dsimp only
      split <;> omega

private theorem along_seek (sought : Store → ObjectId → Bool) (store : Store)
    (levels : List ObjectId) :
    (seek sought).along levels () store = (levels.any (sought store), store) := by
  induction levels with
  | nil => rfl
  | cons level levels induction =>
      rw [along, List.any_cons]
      simp only [seek, looking]
      cases sought store level with
      | true => rfl
      | false => exact induction

end Walk

/-! ### Walks that end -/

/-- Whether the walks from an object end, with the answers that the operations on its ancestry
give. -/
structure WalksEnd (store : Store) (object : ObjectId) : Prop where
  lookup : ∀ name, (Walk.lookup name).Ends (some object) () store (store.lookup object name) store
  enumerableNames : Walk.enumerableNames.Ends (some object) ({}, []) store
    (store.enumerableNames object) store
  remove : ∀ name, (Walk.remove name).Ends (some object) 0 store (store.remove object name).1
    (store.remove object name).2
  isPrototypeOf : ∀ reference, (Walk.seek fun _ level => level = reference).Ends
    (store.parent object) () store (store.isPrototypeOf reference object) store
  inherits : ∀ name method, (Walk.seek fun store level =>
      ((store.ownDescriptor? level name).bind Descriptor.value?).any (·.same method)).Ends
    (store.parent object) () store (store.inherits object name method) store

open Walk in
theorem Rooted.walksEnd {store : Store} (rooted : store.Rooted) (object : ObjectId) :
    store.WalksEnd object where
  lookup name :=
    ends_of_along (keepsParents_looking _ _) rooted (along_lookup store name _)
  enumerableNames :=
    ends_of_along (keepsParents_looking _ _) rooted (along_enumerableNames store _ _ [])
  remove name := by
    apply ends_of_along (keepsParents_remove name) rooted
    rw [along_remove, Nat.zero_add]
    rfl
  isPrototypeOf reference := by
    apply ends_of_along_ancestors (keepsParents_seek _) rooted
    rw [along_seek, isPrototypeOf, List.any_eq]
    simp
  inherits name method :=
    ends_of_along_ancestors (keepsParents_seek _) rooted (along_seek _ store _)

end TraitComposition.Store
