import TraitComposition.Merge

/-!
Composite types. Composing merges sources into a table shared by all instances and
flattens their constructors; constructing runs each constructor once.
-/
namespace TraitComposition

variable {σ : Type} (meaning : Meaning σ)

namespace Composer

/-- Tells the observer about every conflict; under the failing policy the first one
is the fault. -/
def report (composer : Composer) (conflicts : List Conflict) : Action σ Unit := do
  Action.change fun store =>
    conflicts.foldl (fun store conflict => store.report (.conflict composer.observer conflict))
      store
  match composer.config.conflictPolicy, conflicts with
  | .fail, first :: _ => throw (.unresolvedConflict first.member)
  | _, _ => return ()

/-- The table of a composition: a single bare table as it is, otherwise a new table
that delegates to the first source, with the others merged in. -/
def composeTable (composer : Composer) (base : Value) (sources : List Value) :
    Action σ ObjectId := do
  match base, sources with
  | .object table, [] => return table
  | _, _ =>
      let target ← Sources.delegate base
      let definer ← Definer.ofValue meaning base
      composer.report (← mixin meaning target sources definer)
      return target

/-- The sources as they enter the flattened tables: the merged table stands for a
bare table in last place. -/
def chainSources (prototype : ObjectId) : List Value → List Value
  | [] => []
  | [.object _] => [.object prototype]
  | source :: sources => source :: chainSources prototype sources

/-- Composes sources into a composite type; the answer is its procedure value. -/
def compose (composer : Composer) (sources : List Value) : Action σ ProcedureId := do
  Action.ofExcept (Sources.validate sources 0)
  let prototype ← composeTable meaning composer (sources.headD .undefined) sources.tail
  let constructors := (← Action.getStore).constructors sources
  let tables ← Action.edit (Store.prototypes (chainSources prototype sources))
  Action.edit (·.addComposite prototype
    ⟨constructors, FirstSeen.insert tables prototype⟩ composer)

/-- Merges sources into an existing object, through the definer it brings along. -/
def mixinInto (composer : Composer) (target : ObjectId) (sources : List Value) :
    Action σ ObjectId := do
  Action.ofExcept (Sources.validate sources 1)
  let definer ← Definer.ofValue meaning (.object target)
  composer.report (← mixin meaning target sources definer)
  return target

/-- Calls every procedure among the sources once; an object that one returns takes
the place of the instance. -/
def runInitializers : List Value → ObjectId → Action σ ObjectId
  | [], instanceObject => return instanceObject
  | .procedure initializer :: sources, instanceObject => do
      match ← meaning.call initializer (.object instanceObject) [] with
      | .object replacement => runInitializers sources replacement
      | _ => runInitializers sources instanceObject
  | _ :: sources, instanceObject => runInitializers sources instanceObject

def create (composer : Composer) (base : Value) (sources : List Value) :
    Action σ ObjectId := do
  Action.ofExcept (Sources.validate [base] 0)
  Action.ofExcept (Sources.validate sources 1)
  let target ← Sources.delegate base
  let definer ← Definer.ofValue meaning base
  composer.report (← mixin meaning target sources definer)
  runInitializers meaning (base :: sources) target

end Composer

namespace Composite

/-- Composes the type with further sources, under the type's own settings. -/
def extend (type : Composite) (sources : List Value) : Action σ ProcedureId :=
  type.composer.compose meaning (.procedure type.procedure :: sources)

/-! ### Construction -/

def absorbMember (definer : Definer) (target returned : ObjectId) (name : String) :
    Action σ Unit := do
  let store ← Action.getStore
  if store.has target name then
    Member.assign meaning target name (← Member.read meaning returned name)
  else
    match store.ownDescriptor? returned name with
    | some descriptor => definer.define meaning target name descriptor
    | none => return ()

/-- Copies the own enumerable members of an object that a constructor returned. -/
def absorb (target returned : ObjectId) : Action σ Unit := do
  let definer ← Definer.ofValue meaning (.object target)
  ((← Action.getStore).keys returned).forM (absorbMember meaning definer target returned)

def materializeMember (definer : Definer) (target : ObjectId) (name : String) :
    Action σ Unit := do
  let store ← Action.getStore
  if store.hasOwn target name then
    return ()
  else
    match store.descriptor? target name with
    | some descriptor =>
        if descriptor.isAccessor then
          definer.define meaning target name descriptor
        else
          return ()
    | none => return ()

def materialize (target : ObjectId) : Action σ Unit := do
  let definer ← Definer.ofValue meaning (.object target)
  ((← Action.getStore).enumerableNames target).forM (materializeMember meaning definer target)

/-- The object that construction starts from: the receiver if it delegates to the
prototype, otherwise a new object that does. -/
def candidate (prototype : ObjectId) (receiver : Value) : Action σ ObjectId := do
  match receiver with
  | .object object =>
      if (← Action.getStore).isPrototypeOf prototype object then
        return object
      else
        Action.edit (·.createObject (some prototype))
  | _ => Action.edit (·.createObject (some prototype))

/-- Runs constructors in order, each with the same arguments. A returned object that
delegates to the prototype takes the place of the instance, any other is absorbed. -/
def runConstructors (prototype : ObjectId) (arguments : List Value) :
    List ProcedureId → ObjectId → Action σ ObjectId
  | [], instanceObject => return instanceObject
  | constructor :: constructors, instanceObject => do
      match ← meaning.call constructor (.object instanceObject) arguments with
      | .object returned =>
          if (← Action.getStore).isPrototypeOf prototype returned then
            runConstructors prototype arguments constructors returned
          else
            absorb meaning instanceObject returned
            runConstructors prototype arguments constructors instanceObject
      | _ => runConstructors prototype arguments constructors instanceObject

def construct (type : Composite) (receiver : Value) (arguments : List Value) :
    Action σ ObjectId := do
  let start ← candidate type.prototype receiver
  let built ← runConstructors meaning type.prototype arguments type.bases.constructors start
  if type.composer.config.materializeAccessors then
    materialize meaning built
  return built

end Composite

end TraitComposition
