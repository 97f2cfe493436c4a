import TraitComposition.Advice
import TraitComposition.Merge

/-!
Decorators that define members in terms of others: a patch changes some fields of
the definition a destination resolves, an alias copies a member.
-/
namespace TraitComposition

variable {σ : Type} (meaning : Meaning σ)

namespace Store

def traitTable (source : Value) (store : Store) : Option ObjectId × Store :=
  match source with
  | .procedure procedure =>
      let (table, store) := store.prototypeOf procedure
      (some table, store)
  | .object object => (some object, store)
  | _ => (none, store)

def traitDescriptor (source : Value) (name : String) (store : Store) :
    Option Descriptor × Store :=
  let (table, store) := store.traitTable source
  (table.bind fun table => store.descriptor? table name, store)

end Store

namespace Decorator

/-- A decorator with a hook; called without having been installed it runs `direct`. -/
def create (hook : Hook) (direct : Option ProcedureId) : Action σ ProcedureId :=
  Action.edit (·.addProcedure
    { label := some "decorator", body := .unapplied direct, hook := some hook })

/-- A decorator that copies a member. A named member of a trait is captured at once. -/
def createAlias (source : AliasSource) (member : Option String) : Action σ ProcedureId := do
  let captured ← match source, member with
    | .trait trait, some name => Action.edit (Store.traitDescriptor trait name)
    | _, _ => pure none
  create (.aliased source member captured) none

/-- The inherited descriptor with the fields that the patch gives. A given procedure
that is itself a decorator is installed over the inherited one. -/
def patched (name : String) (inherited : Descriptor) (patch : Patch) : Action σ Descriptor := do
  let merged ← inherited.encode
  let fields ← patch.encode
  let _ ← mixin meaning merged [.object fields] .raw
  Descriptor.decode meaning name merged

def installPatch (patch : Patch) (target : ObjectId) (name : String) : Action σ Unit := do
  let descriptor ← match (← Action.getStore).descriptor? target name with
    | some inherited => patched meaning name inherited patch
    | none => patch.complete meaning name
  Member.define target name descriptor

def aliasedDescriptor (source : AliasSource) (member : Option String)
    (captured : Option Descriptor) (target : ObjectId) (name : String) :
    Action σ (String × Option Descriptor) := do
  match source with
  | .member sourceName => return (sourceName, (← Action.getStore).descriptor? target sourceName)
  | .trait trait =>
      let sourceName := member.getD name
      match captured with
      | some descriptor => return (sourceName, some descriptor)
      | none => return (sourceName, ← Action.edit (Store.traitDescriptor trait sourceName))

def installAlias (source : AliasSource) (member : Option String)
    (captured : Option Descriptor) (target : ObjectId) (name : String) : Action σ Unit := do
  match ← aliasedDescriptor source member captured target name with
  | (_, some descriptor) => Member.define target name descriptor
  | (sourceName, none) => throw (.aliasUnavailable sourceName name)

def installWeave (weave : Weave) (target : ObjectId) (name : String) : Action σ Unit := do
  let store ← Action.getStore
  let current := store.weaveOf (store.dataValue? target name)
  match ← (store.stackWeaves current weave).build meaning with
  | some advised => Member.assign meaning target name (.procedure advised)
  | none => return ()

def install (hook : Hook) (target : ObjectId) (name : String) : Action σ Unit :=
  match hook with
  | .weave weave => installWeave meaning weave target name
  | .patch patch => installPatch meaning patch target name
  | .aliased source member captured => installAlias source member captured target name
  | .code code => do
      let _ ← meaning.enter code (.install hook target name)

end Decorator

end TraitComposition
