import TraitComposition.Store.Basic

/-!
User code as programs. A program looks at the store, keeps a state of its own, and
asks for operations one at a time; the next step may depend on each answer. It has
no other way to act on the store, so what holds for every program holds for every
piece of user code.
-/
namespace TraitComposition

/-- How new members are defined on a destination: directly, or by a procedure that
is called with the destination, the name and the descriptor as an object. -/
inductive Definer where
  | raw
  | custom (procedure : ProcedureId)
deriving DecidableEq, Inhabited

inductive Entry where
  /-- A call with a receiver and arguments. -/
  | call (receiver : Value) (arguments : List Value)
  /-- Advice is to be woven over `base`. -/
  | weave (base : Option ProcedureId)
  /-- A decorator is to be installed; `hook` is the one that is running. -/
  | install (hook : Hook) (target : ObjectId) (name : String)

/-! ### Requests -/

inductive Request where
  | createObject (parent : Option ObjectId)
  | insert (object : ObjectId) (name : String) (value : Value)
  | read (object : ObjectId) (name : String)
  | assign (object : ObjectId) (name : String) (value : Value)
  | define (object : ObjectId) (name : String) (descriptor : Descriptor)
  | delete (object : ObjectId) (name : String)
  | remove (object : ObjectId) (name : String)
  | invoke (object : ObjectId) (name : String) (arguments : List Value)
  | encode (descriptor : Descriptor)
  | decode (member : String) (object : ObjectId)
  | encodePatch (patch : Patch)
  | completePatch (member : String) (patch : Patch)
  | createProcedure (label : Option String) (code : CodeId)
  | createConstructible (code : CodeId) (prototype : ObjectId) (bases : Bases)
  | call (procedure : ProcedureId) (receiver : Value) (arguments : List Value)
  | prototypeOf (procedure : ProcedureId)
  | withHook (procedure : ProcedureId) (hook : Hook)
  | withMark (procedure : ProcedureId) (mark : Mark)
  | install (hook : Hook) (target : ObjectId) (name : String)
  | createDecorator (hook : Hook) (direct : Option ProcedureId)
  | createAlias (source : AliasSource) (member : Option String)
  | createAdvice (advice : Advice)
  | build (weave : Weave)
  | prototypes (sources : List Value)
  | delegate (base : Value)
  | definerFor (value : Value)
  | defineThrough (definer : Definer) (object : ObjectId) (name : String)
      (descriptor : Descriptor)
  | mixin (target : ObjectId) (sources : List Value) (definer : Definer)
  | compose (composer : Composer) (sources : List Value)
  | create (composer : Composer) (base : Value) (sources : List Value)
  | mixinInto (composer : Composer) (target : ObjectId) (sources : List Value)
  | extend (type : Composite) (sources : List Value)
  | construct (type : Composite) (arguments : List Value)
  | setDefiner (type : CompositeId) (definer : ProcedureId)
  | note (value : Value)

def Request.Answer : Request → Type
  | createObject _ | encode _ | encodePatch _ | prototypeOf _ | delegate _
  | create .. | mixinInto .. | construct .. => ObjectId
  | insert .. | assign .. | define .. | install .. | defineThrough .. | setDefiner ..
  | note _ => Unit
  | read .. | invoke .. | call .. => Value
  | delete .. => Bool
  | remove .. => Nat
  | decode .. | completePatch .. => Descriptor
  | createProcedure .. | createConstructible .. | withHook .. | withMark ..
  | createDecorator .. | createAlias .. | createAdvice _ | compose .. | extend .. => ProcedureId
  | build _ => Option ProcedureId
  | prototypes _ => List ObjectId
  | definerFor _ => Definer
  | mixin .. => List Conflict

/-! ### Programs -/

/-- A program that keeps a state of type `σ` and ends with a value or a fault. -/
inductive Program (σ : Type) : Type where
  | done (result : Except Fault Value)
  | readState (next : σ → Program σ)
  | writeState (state : σ) (next : Program σ)
  | readStore (next : Store → Program σ)
  /-- Makes a new piece of user code. -/
  | createCode (code : Entry → Program σ) (next : CodeId → Program σ)
  | ask (request : Request) (next : Except Fault request.Answer → Program σ)

instance (σ : Type) : Inhabited (Program σ) :=
  ⟨.done (.ok .undefined)⟩

end TraitComposition
