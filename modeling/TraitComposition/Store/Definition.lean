import TraitComposition.Store.Delegation

/-!
Definitions that respect what is locked. A member that is not configurable can
neither be deleted nor, but for the exceptions of `Descriptor.redefinable`, be
redefined.
-/
namespace TraitComposition.Store

def accepts (store : Store) (reference : ObjectId) (name : String)
    (descriptor : Descriptor) : Bool :=
  match store.ownDescriptor? reference name with
  | none => true
  | some existing => existing.configurable || existing.redefinable descriptor

def deletable (store : Store) (reference : ObjectId) (name : String) : Bool :=
  ((store.ownDescriptor? reference name).map Descriptor.configurable).getD false

/-- Deletes an own configurable member; the answer is whether there was one. -/
def delete (store : Store) (reference : ObjectId) (name : String) : Bool × Store :=
  if store.deletable reference name then
    (true, store.eraseMember reference name)
  else
    (false, store)

def removeFrom (name : String) : List ObjectId → Store → Nat × Store
  | [], store => (0, store)
  | level :: levels, store =>
      let (deleted, store) := store.delete level name
      let (count, store) := removeFrom name levels store
      (if deleted then count + 1 else count, store)

/-- Deletes a member at every level of an ancestry; the answer is at how many
levels there was one to delete. -/
def remove (store : Store) (reference : ObjectId) (name : String) : Nat × Store :=
  removeFrom name (store.ancestry reference) store

end TraitComposition.Store
