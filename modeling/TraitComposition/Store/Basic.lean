import TraitComposition.Conflict
import TraitComposition.MemberTable
import TraitComposition.Weave

/-!
The store of everything that has an identity: objects, procedures, layers of
advice and composite types, each in the order of its creation. The store is plain
data; what a piece of user code does is kept elsewhere and only named here.
-/
namespace TraitComposition

structure CodeId where
  index : Nat
deriving DecidableEq, Inhabited

structure CompositeId where
  index : Nat
deriving DecidableEq, Inhabited

inductive AliasSource where
  | member (name : String)
  | trait (source : Value)
deriving Inhabited

/-- What happens when a decorator is installed under a name of a destination. -/
inductive Hook where
  /-- Stacks a weave on the member. -/
  | weave (weave : Weave)
  /-- Patches the definition the destination resolves. -/
  | patch (patch : Patch)
  /-- Copies a member; `captured` is what the trait held when the alias was made. -/
  | aliased (source : AliasSource) (member : Option String) (captured : Option Descriptor)
  /-- Runs user code. -/
  | code (code : CodeId)
deriving Inhabited

inductive Mark where
  | weave (weave : Weave)
  | value (value : Value)
deriving Inhabited

/-- The constructors to run and the member tables merged, each without repetition
and in the order of first occurrence. -/
structure Bases where
  constructors : List ProcedureId := []
  prototypes : List ObjectId := []
deriving DecidableEq, Inhabited

inductive Body where
  /-- Runs user code. -/
  | code (code : CodeId)
  /-- Stands for a member that has yet to be implemented. -/
  | required
  /-- A decorator that was not installed. -/
  | unapplied (direct : Option ProcedureId)
  /-- Builds an instance of a composite type. -/
  | composite (type : CompositeId)
  /-- Builds an instance with user code. -/
  | constructible (code : CodeId) (prototype : ObjectId) (bases : Bases)
  /-- Advice that runs first, over the procedure it wraps. -/
  | before (advice : CodeId) (base : Option ProcedureId)
  /-- Advice that runs after the procedure it wraps. -/
  | after (advice base : ProcedureId)
  /-- A layer of advice over nothing, woven when it is first called. -/
  | standalone (layer : LayerId)
  | failing (fault : Fault)
deriving Inhabited

structure Procedure where
  label : Option String := none
  body : Body
  hook : Option Hook := none
  mark : Option Mark := none
  /-- The member table of a plain procedure, made on first use. -/
  table : Option ObjectId := none
deriving Inhabited

inductive Advice where
  | before (advice : CodeId)
  | after (advice : ProcedureId)
  /-- User code that is given the procedure to wrap and answers with the advised
  one; if it gives none, a procedure that fails with `otherwise` takes its place. -/
  | around (weaver : CodeId) (otherwise : Fault)
deriving Inhabited

structure Layer where
  advice : Advice
  /-- The layer woven over nothing, once that was asked for. -/
  standalone : Option ProcedureId := none
deriving Inhabited

structure Composite where
  /-- The procedure value of the type. -/
  procedure : ProcedureId
  prototype : ObjectId
  bases : Bases
  composer : Composer
  /-- The procedure that definitions made for the type go through, if one was set. -/
  definer : Option ProcedureId := none
deriving Inhabited

structure Object where
  parent : Option ObjectId := none
  members : MemberTable := .empty
deriving Inhabited

structure Store where
  objects : Array Object := #[]
  procedures : Array Procedure := #[]
  layers : Array Layer := #[]
  composites : Array Composite := #[]
  journal : Array Report := #[]
deriving Inhabited

namespace Store

def initial : Store where
  procedures := #[{ label := some "required", body := .required }]

def requiredMarker : ProcedureId := ⟨0⟩

/-! ### Reading -/

def object (store : Store) (reference : ObjectId) : Object :=
  store.objects.getD reference.index {}

def procedure (store : Store) (reference : ProcedureId) : Procedure :=
  store.procedures.getD reference.index { body := .required }

def layer (store : Store) (reference : LayerId) : Option Layer :=
  store.layers[reference.index]?

def composite (store : Store) (reference : CompositeId) : Option Composite :=
  store.composites[reference.index]?

def parent (store : Store) (reference : ObjectId) : Option ObjectId :=
  (store.object reference).parent

def members (store : Store) (reference : ObjectId) : MemberTable :=
  (store.object reference).members

def isRequired (store : Store) (reference : ProcedureId) : Bool :=
  match (store.procedure reference).body with
  | .required => true
  | _ => false

def isDecorator (store : Store) (reference : ProcedureId) : Bool :=
  (store.procedure reference).hook.isSome

def composite? (store : Store) (reference : ProcedureId) : Option Composite :=
  match (store.procedure reference).body with
  | .composite type => store.composite type
  | _ => none

/-- The composite type whose value a procedure is. One that only builds instances of it
does not stand for the type. -/
def typeOf? (store : Store) (reference : ProcedureId) : Option (CompositeId × Composite) :=
  match (store.procedure reference).body with
  | .composite type =>
      ((store.composite type).filter (·.procedure = reference)).map fun composite =>
        (type, composite)
  | _ => none

def bases? (store : Store) (reference : ProcedureId) : Option Bases :=
  match (store.procedure reference).body with
  | .composite type => (store.composite type).map Composite.bases
  | .constructible _ _ bases => some bases
  | _ => none

def definer? (store : Store) (reference : ProcedureId) : Option ProcedureId :=
  (store.composite? reference).bind Composite.definer

/-! ### Objects -/

def addObject (store : Store) (object : Object) : ObjectId × Store :=
  (⟨store.objects.size⟩, { store with objects := store.objects.push object })

def hasObject (store : Store) (reference : ObjectId) : Bool :=
  reference.index < store.objects.size

def createObject (store : Store) (parent : Option ObjectId) : ObjectId × Store :=
  store.addObject { parent := parent.filter store.hasObject }

def updateMembers (store : Store) (reference : ObjectId)
    (update : MemberTable → MemberTable) : Store :=
  { store with
    objects := store.objects.modify reference.index fun object =>
      { object with members := update object.members } }

def storeMember (store : Store) (reference : ObjectId) (name : String)
    (descriptor : Descriptor) : Store :=
  store.updateMembers reference (·.insert name descriptor)

/-- Stores a value as an own member that is writable, enumerable and configurable. -/
def insert (store : Store) (reference : ObjectId) (name : String) (value : Value) : Store :=
  store.storeMember reference name (.ofValue value)

def insertAll (store : Store) (reference : ObjectId) (entries : List (String × Value)) : Store :=
  entries.foldl (fun store entry => store.insert reference entry.1 entry.2) store

def eraseMember (store : Store) (reference : ObjectId) (name : String) : Store :=
  store.updateMembers reference (·.erase name)

/-! ### Procedures -/

def addProcedure (store : Store) (procedure : Procedure) : ProcedureId × Store :=
  (⟨store.procedures.size⟩, { store with procedures := store.procedures.push procedure })

def updateProcedure (store : Store) (reference : ProcedureId)
    (update : Procedure → Procedure) : Store :=
  { store with procedures := store.procedures.modify reference.index update }

def withHook (store : Store) (reference : ProcedureId) (hook : Hook) : ProcedureId × Store :=
  store.addProcedure { store.procedure reference with hook := some hook, table := none }

def withMark (store : Store) (reference : ProcedureId) (mark : Mark) : ProcedureId × Store :=
  store.addProcedure { store.procedure reference with mark := some mark, table := none }

def prototypeOf (store : Store) (reference : ProcedureId) : ObjectId × Store :=
  let procedure := store.procedure reference
  match procedure.body, procedure.table with
  | .composite type, _ => (((store.composite type).map Composite.prototype).getD ⟨0⟩, store)
  | .constructible _ prototype _, _ => (prototype, store)
  | _, some table => (table, store)
  | _, none =>
      let (table, store) := store.createObject none
      (table, store.updateProcedure reference fun procedure =>
        { procedure with table := some table })

/-! ### Layers, composite types and reports -/

def addLayer (store : Store) (layer : Layer) : LayerId × Store :=
  (⟨store.layers.size⟩, { store with layers := store.layers.push layer })

def setStandalone (store : Store) (reference : LayerId) (procedure : ProcedureId) : Store :=
  { store with
    layers := store.layers.modify reference.index fun layer =>
      { layer with standalone := some procedure } }

def addComposite (store : Store) (prototype : ObjectId) (bases : Bases)
    (composer : Composer) : ProcedureId × Store :=
  let (procedure, store) := store.addProcedure
    { label := some "composite", body := .composite ⟨store.composites.size⟩ }
  (procedure, { store with
    composites := store.composites.push { procedure, prototype, bases, composer } })

def setDefiner (store : Store) (reference : CompositeId) (definer : ProcedureId) : Store :=
  { store with
    composites := store.composites.modify reference.index fun composite =>
      { composite with definer := some definer } }

def report (store : Store) (entry : Report) : Store :=
  { store with journal := store.journal.push entry }

end Store

end TraitComposition
