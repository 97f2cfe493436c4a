import Std.Data.TreeSet
import TraitComposition.Store.Basic

/-!
Delegation. A member that an object does not own is looked for in its parent, and
so on; the object and the objects behind it are its ancestry, nearest first. An
object only delegates to one made before it, so an ancestry has at most as many
levels as the object's number, plus one.
-/
namespace TraitComposition.Store

def ancestryWithin (store : Store) : (limit : Nat) → ObjectId → List ObjectId
  | 0, _ => []
  | limit + 1, reference =>
      reference :: match store.parent reference with
        | none => []
        | some parent => store.ancestryWithin limit parent

def ancestry (store : Store) (reference : ObjectId) : List ObjectId :=
  store.ancestryWithin (reference.index + 1) reference

def ancestors (store : Store) (reference : ObjectId) : List ObjectId :=
  (store.ancestry reference).tail

/-! ### Own members -/

def ownDescriptor? (store : Store) (reference : ObjectId) (name : String) :
    Option Descriptor :=
  (store.members reference).find? name

def hasOwn (store : Store) (reference : ObjectId) (name : String) : Bool :=
  (store.members reference).contains name

def ownNames (store : Store) (reference : ObjectId) : List String :=
  (store.members reference).names

def keys (store : Store) (reference : ObjectId) : List String :=
  (store.members reference).keys

/-! ### Members through the ancestry -/

def lookup (store : Store) (reference : ObjectId) (name : String) :
    Option (ObjectId × Descriptor) :=
  (store.ancestry reference).findSome? fun level =>
    (store.ownDescriptor? level name).map fun descriptor => (level, descriptor)

def descriptor? (store : Store) (reference : ObjectId) (name : String) : Option Descriptor :=
  (store.lookup reference name).map (·.2)

def has (store : Store) (reference : ObjectId) (name : String) : Bool :=
  (store.lookup reference name).isSome

def dataValue? (store : Store) (reference : ObjectId) (name : String) : Option Value :=
  (store.descriptor? reference name).bind Descriptor.value?

/-- The enumerable names of a list of tables, where a name counts only in the first
table that has it, and not at all if it is hidden from the start. -/
def visibleNames (hidden : Std.TreeSet String) : List MemberTable → List String
  | [] => []
  | table :: tables =>
      table.keys.filter (· ∉ hidden) ++ visibleNames (hidden.insertMany table.names) tables

/-- The enumerable names of an object and of what it delegates to, nearest level
first. A nearer member hides the farther ones of its name, enumerable or not. -/
def enumerableNames (store : Store) (reference : ObjectId) : List String :=
  visibleNames {} ((store.ancestry reference).map store.members)

def isPrototypeOf (store : Store) (reference other : ObjectId) : Bool :=
  reference ∈ store.ancestors other

/-- Whether an object that `reference` delegates to owns `method` under the name. -/
def inherits (store : Store) (reference : ObjectId) (name : String) (method : Value) : Bool :=
  (store.ancestors reference).any fun level =>
    ((store.ownDescriptor? level name).bind Descriptor.value?).any (·.same method)

def chainHolds (store : Store) (chain : List ObjectId) (name : String) (method : Value) : Bool :=
  chain.any fun table => (store.dataValue? table name).any (·.same method)

example : visibleNames {}
    [.ofEntries [("a", ⟨.data .null true, false, true⟩), ("b", .ofValue .null)],
      .ofEntries [("a", .ofValue .null), ("c", .ofValue .null)]] = ["b", "c"] := by
  decide

end TraitComposition.Store
