import TraitComposition.Flattening
import TraitComposition.Member

/-!
Merging sources, left to right, into one destination. Procedures contribute their
tables, and their methods are weighed against those the destination resolves;
bare tables are copied. A conflict is held back until all sources are merged, so
that a later bare table can settle it by defining the member.
-/
namespace TraitComposition

variable {σ : Type} (meaning : Meaning σ)

namespace Definer

def memberName : String :=
  "defineOwnProperty"

/-- The definer that a value brings along: an object through a member, a composite
type through the definer set on it. -/
def ofValue : Value → Action σ Definer
  | .object object => do
      match ← Member.read meaning object memberName with
      | .procedure definer => return .custom definer
      | _ => return .raw
  | .procedure procedure => do
      match (← Action.getStore).definer? procedure with
      | some definer => return .custom definer
      | none => return .raw
  | _ => return .raw

def define (definer : Definer) (target : ObjectId) (name : String)
    (descriptor : Descriptor) : Action σ Unit :=
  match definer with
  | .raw => Member.define target name descriptor
  | .custom procedure => do
      let fields ← descriptor.encode
      let _ ← Action.naming name
        (meaning.call procedure (.object target) [.text name, .object fields])

end Definer

/-! ### Weighing two methods -/

inductive Resolution where
  /-- The incoming member is copied. -/
  | incoming
  /-- The destination keeps, and from now on owns, what it resolves. -/
  | keepDestination
  /-- The incoming member is copied, and the conflict reported unless it is settled. -/
  | conflict (existing : ProcedureId)
deriving DecidableEq

/-- A method that a source brings to a destination which resolves the name to
another method. -/
structure Rivalry where
  name : String
  incoming : ProcedureId
  existing : ProcedureId
  /-- Whether the source owns the method, rather than inheriting it. -/
  own : Bool
  /-- The tables of the source. -/
  ownChain : List ObjectId

namespace Rivalry

def overridesExisting (rivalry : Rivalry) (store : Store) : Bool :=
  store.chainHolds rivalry.ownChain rivalry.name (.procedure rivalry.existing)

/-- Weighs a rivalry in a destination. `earlier` are the tables of the sources merged
before this one; the answer depends on who has overridden whom. -/
def resolve (rivalry : Rivalry) (store : Store) (target : ObjectId)
    (earlier throughThis : List ObjectId) : Resolution :=
  if store.isRequired rivalry.incoming then
    .keepDestination
  else if store.isRequired rivalry.existing then
    .incoming
  else if rivalry.own then
    if rivalry.overridesExisting store then
      .incoming
    else if store.inherits target rivalry.name (.procedure rivalry.incoming) ||
        store.chainHolds earlier rivalry.name (.procedure rivalry.incoming) then
      .keepDestination
    else
      .conflict rivalry.existing
  else
    if store.chainHolds throughThis rivalry.name (.procedure rivalry.incoming) then
      .keepDestination
    else if rivalry.overridesExisting store then
      .incoming
    else
      .conflict rivalry.existing

end Rivalry

/-! ### Conflicts held back -/

/-- Records a conflict; a second one of the same member replaces the first in its
place. -/
def holdConflict (conflict : Conflict) : List Conflict → List Conflict
  | [] => [conflict]
  | held :: rest =>
      if held.member = conflict.member then conflict :: rest
      else held :: holdConflict conflict rest

def settleConflict (name : String) (held : List Conflict) : List Conflict :=
  held.filter fun conflict => conflict.member ≠ name

/-! ### The merge -/

namespace Merge

/-- A destination, the way members are defined on it, and all sources in order. -/
structure Plan where
  target : ObjectId
  definer : Definer
  sources : List Value

variable (plan : Plan)

/-- Puts a member on the destination: a value for a name it owns is assigned,
everything else is defined. -/
def put (name : String) (descriptor : Descriptor) : Action σ Unit := do
  match descriptor.value? with
  | some value =>
      if (← Action.getStore).hasOwn plan.target name then
        Member.assign meaning plan.target name value
      else
        plan.definer.define meaning plan.target name descriptor
  | none => plan.definer.define meaning plan.target name descriptor

def weigh (index : Nat) (name : String) (own : Bool) (incoming : ProcedureId)
    (ownChain : List ObjectId) (current : Option Value) : Action σ Resolution :=
  match current with
  | some (.procedure existing) =>
      if existing = incoming then
        return .incoming
      else do
        let earlier ← Action.edit (Store.prototypes (plan.sources.take index))
        let throughThis ← Action.edit (Store.prototypes (plan.sources.take (index + 1)))
        return Rivalry.resolve ⟨name, incoming, existing, own, ownChain⟩
          (← Action.getStore) plan.target earlier throughThis
  | _ => return .incoming

def mixMethod (index : Nat) (table : ObjectId) (ownChain : List ObjectId) (name : String)
    (held : List Conflict) : Action σ (List Conflict) := do
  let store ← Action.getStore
  match store.lookup table name with
  | none => return held
  | some (owner, descriptor) =>
      let own := owner == table
      let current := store.dataValue? plan.target name
      match descriptor.method? with
      | none =>
          put meaning plan name descriptor
          return held
      | some incoming =>
          match (store.procedure incoming).hook, own &&
              !(current.any (store.chainHolds ownChain name)) with
          | some hook, true =>
              meaning.install hook plan.target name
              return settleConflict name held
          | _, _ =>
              match ← weigh plan index name own incoming ownChain current with
              | .keepDestination =>
                  match (← Action.getStore).descriptor? plan.target name with
                  | some kept => put meaning plan name kept
                  | none => pure ()
                  return held
              | .conflict existing =>
                  put meaning plan name descriptor
                  return holdConflict ⟨name, existing, incoming⟩ held
              | .incoming =>
                  put meaning plan name descriptor
                  return held

def mixMember (table : ObjectId) (name : String) (held : List Conflict) :
    Action σ (List Conflict) := do
  let store ← Action.getStore
  match store.lookup table name with
  | none => return held
  | some (owner, descriptor) =>
      let settled := if owner = table then settleConflict name held else held
      match descriptor.method? with
      | none =>
          put meaning plan name descriptor
          return settled
      | some method =>
          match (store.procedure method).hook with
          | some hook =>
              meaning.install hook plan.target name
              return settleConflict name held
          | none =>
              if store.isRequired method && store.has plan.target name then
                return held
              else
                put meaning plan name descriptor
                return settled

def mixSource (index : Nat) (source : Value) (held : List Conflict) :
    Action σ (List Conflict) :=
  match source with
  | .procedure procedure => do
      let table ← Action.edit (·.prototypeOf procedure)
      let ownChain ← Action.edit (Store.prototypes [source])
      ((← Action.getStore).enumerableNames table).foldlM
        (fun held name => mixMethod meaning plan index table ownChain name held) held
  | .object table => do
      ((← Action.getStore).enumerableNames table).foldlM
        (fun held name => mixMember meaning plan table name held) held
  | other => throw (.invalidInput index other.typeName)

def mixSources : (index : Nat) → List Value → List Conflict → Action σ (List Conflict)
  | _, [], held => return held
  | index, source :: sources, held => do
      mixSources (index + 1) sources (← mixSource meaning plan index source held)

end Merge

/-- Merges sources into `target`; the answer is the conflicts that nobody settled. -/
def mixin (target : ObjectId) (sources : List Value) (definer : Definer) :
    Action σ (List Conflict) :=
  Merge.mixSources meaning ⟨target, definer, sources⟩ 0 sources []

end TraitComposition
