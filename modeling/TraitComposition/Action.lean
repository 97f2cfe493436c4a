import TraitComposition.Program
import TraitComposition.Store.Definition

/-!
Actions on a world: the store, the user code it names, and the state that user
code keeps. An action that fails keeps what it did to the world before.
-/
namespace TraitComposition

structure World (σ : Type) where
  store : Store := .initial
  codes : Array (Entry → Program σ) := #[]
  state : σ

abbrev Action (σ : Type) : Type → Type :=
  ExceptT Fault (StateM (World σ))

variable {σ α : Type}

namespace World

/-- The code under a name; an unknown name stands for code that does nothing. -/
def code (world : World σ) (reference : CodeId) : Entry → Program σ :=
  world.codes.getD reference.index fun _ => .done (.ok .undefined)

def addCode (world : World σ) (code : Entry → Program σ) : CodeId × World σ :=
  (⟨world.codes.size⟩, { world with codes := world.codes.push code })

end World

namespace Action

def run (action : Action σ α) (world : World σ) : Except Fault α × World σ :=
  StateT.run (ExceptT.run action) world

def getStore : Action σ Store := do
  return (← get).store

def edit (change : Store → α × Store) : Action σ α := do
  let world ← get
  let (answer, store) := change world.store
  set { world with store := store }
  return answer

def change (update : Store → Store) : Action σ Unit :=
  modify fun world => { world with store := update world.store }

def ofExcept : Except Fault α → Action σ α
  | .ok answer => return answer
  | .error fault => throw fault

def outcome (action : Action σ α) : Action σ (Except Fault α) :=
  ExceptT.lift (ExceptT.run action)

def naming (name : String) (action : Action σ α) : Action σ α :=
  ExceptT.mk do return (← ExceptT.run action).mapError (Fault.withMember name)

end Action

/-- What calls, installs and entries of user code mean. The operations of the
library take it as an argument, so that what they do can be told apart from what
the code they run does. -/
structure Meaning (σ : Type) where
  call : ProcedureId → Value → List Value → Action σ Value
  install : Hook → ObjectId → String → Action σ Unit
  enter : CodeId → Entry → Action σ Value

end TraitComposition
