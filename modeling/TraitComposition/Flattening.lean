import TraitComposition.Action

/-!
Sources of a composition, flattened. A composite type that is used as a source
contributes the lists it was made with instead of being expanded again, so that a
shared ancestor occurs once however many ways lead to it.
-/
namespace TraitComposition

namespace Store

def sourceConstructors (store : Store) : Value → List ProcedureId
  | .procedure procedure =>
      match store.bases? procedure with
      | some bases => bases.constructors
      | none => [procedure]
  | _ => []

def constructors (store : Store) (sources : List Value) : List ProcedureId :=
  FirstSeen.ofList (sources.flatMap store.sourceConstructors)

def sourcePrototypes (source : Value) (store : Store) : List ObjectId × Store :=
  match source with
  | .procedure procedure =>
      match store.bases? procedure with
      | some bases => (bases.prototypes, store)
      | none =>
          let (table, store) := store.prototypeOf procedure
          ([table], store)
  | .object object => ([object], store)
  | _ => ([], store)

def allPrototypes : List Value → Store → List ObjectId × Store
  | [], store => ([], store)
  | source :: sources, store =>
      let (tables, store) := sourcePrototypes source store
      let (more, store) := allPrototypes sources store
      (tables ++ more, store)

def prototypes (sources : List Value) (store : Store) : List ObjectId × Store :=
  let (tables, store) := allPrototypes sources store
  (FirstSeen.ofList tables, store)

end Store

namespace Sources

/-- The first source that is neither a procedure nor an object, counted from
`position`. -/
def invalidFrom (position : Nat) : List Value → Option Fault
  | [] => none
  | .procedure _ :: sources | .object _ :: sources => invalidFrom (position + 1) sources
  | source :: _ => some (.invalidInput position source.typeName)

/-- Rejects sources that cannot be composed. Positions are counted from `offset`; a
list that starts the count must not be empty. -/
def validate (sources : List Value) (offset : Nat) : Except Fault Unit :=
  if sources.isEmpty && offset == 0 then
    .error (.invalidInput 0 "nothing")
  else
    match invalidFrom offset sources with
    | some fault => .error fault
    | none => .ok ()

/-- A new object that delegates to `base`, or to the table of the procedure `base`. -/
def delegate {σ : Type} : Value → Action σ ObjectId
  | .object object => Action.edit (·.createObject (some object))
  | .procedure procedure => do
      let table ← Action.edit (·.prototypeOf procedure)
      Action.edit (·.createObject (some table))
  | base => throw (.invalidInput 0 base.typeName)

example : validate [.object ⟨0⟩, .null] 1 = .error (.invalidInput 2 "null") := rfl

end Sources

end TraitComposition
