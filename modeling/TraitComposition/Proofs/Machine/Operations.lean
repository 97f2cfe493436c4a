import TraitComposition.Machine
import TraitComposition.Proofs.Machine.Following
import TraitComposition.Proofs.Store.Locking

/-!
What whole machines respect. All that is ever done to a world comes down to a few kinds of
changes: members and objects, new procedures and what is woven of them; and, only where
somebody asks for it, members stored unchecked, reports, hooks and marks, and types. A passage
that bears these is respected by every operation, provided that the calls, installs and entries
of user code it makes respect it; the machine ties the knot, so user code, which can only ask
for operations, cannot do anything else either.
-/
namespace TraitComposition

/-! ### Quiet changes of a store -/

namespace Store

structure Quiet (before after : Store) : Prop where
  evolves : before.Evolves after
  procedures : after.procedures.size = before.procedures.size
  layers : after.layers = before.layers
  journal : after.journal = before.journal
  locked : ∀ object, KeepsLocked object before after

namespace Quiet

variable {first second third : Store}

theorem refl (store : Store) : store.Quiet store where
  evolves := .refl store
  procedures := rfl
  layers := rfl
  journal := rfl
  locked object := .refl object store

theorem trans (start : first.Quiet second) (rest : second.Quiet third) : first.Quiet third where
  evolves := start.evolves.trans rest.evolves
  procedures := rest.procedures.trans start.procedures
  layers := rest.layers.trans start.layers
  journal := rest.journal.trans start.journal
  locked object := (start.locked object).trans (rest.locked object)

private theorem of_createObject (store : Store) (parent : Option ObjectId) :
    store.Quiet (store.createObject parent).2 where
  evolves := .of_step (.createObject store parent)
  procedures := rfl
  layers := rfl
  journal := rfl
  locked _ := .of_changesWithin (.of_createObject store parent)

theorem of_insert {store : Store} {object : ObjectId} {name : String}
    (unowned : store.ownDescriptor? object name = none) (value : Value) :
    store.Quiet (store.insert object name value) where
  evolves := .of_step (.insert store object name value)
  procedures := rfl
  layers := rfl
  journal := rfl
  locked _ := .of_not_owned store unowned

private theorem of_update {store : Store} {object : ObjectId} {name : String}
    {descriptor : Descriptor}
    {old : Value} (value : Value) (owned : store.ownDescriptor? object name = some descriptor)
    (writable : descriptor.shape = .data old true) :
    store.Quiet (store.storeMember object name (descriptor.withValue value)) where
  evolves := .of_step (.update value owned writable)
  procedures := rfl
  layers := rfl
  journal := rfl
  locked _ := .of_writable store owned writable value

private theorem of_define {store : Store} {object : ObjectId} {name : String}
    {descriptor : Descriptor} (accepted : store.accepts object name descriptor = true) :
    store.Quiet (store.storeMember object name descriptor) where
  evolves := .of_step (.define accepted)
  procedures := rfl
  layers := rfl
  journal := rfl
  locked _ := .of_accepts store accepted

private theorem of_setDefiner (store : Store) (type : CompositeId) (definer : ProcedureId) :
    store.Quiet (store.setDefiner type definer) where
  evolves := .of_step (.setDefiner store type definer)
  procedures := rfl
  layers := rfl
  journal := rfl
  locked object := .refl object store

private theorem of_prototypeOf (store : Store) (procedure : ProcedureId) :
    store.Quiet (store.prototypeOf procedure).2 := by
  refine ⟨.of_step (.prototypeOf store procedure), ?_, ?_, ?_,
    fun _ => .of_changesWithin (.of_prototypeOf store procedure)⟩
  all_goals
    rcases store.prototypeOf_cases procedure with unchanged | ⟨_, made⟩
    · rw [unchanged]
    · rw [made]
      simp [updateProcedure]

theorem insertAll_of_new {object : ObjectId} (new : first.hasObject object = false) :
    ∀ (entries : List (String × Value)) {store : Store}, first.Quiet store →
      first.Quiet (store.insertAll object entries)
  | [], _, quiet => quiet
  | entry :: entries, store, quiet =>
      insertAll_of_new new entries
        { evolves := quiet.evolves.trans (.of_step (.insert store object entry.1 entry.2))
          procedures := quiet.procedures
          layers := quiet.layers
          journal := quiet.journal
          locked := fun other => (quiet.locked other).storeMember_of_new new }

theorem of_encode (fields : List (String × Value)) (store : Store) :
    store.Quiet (Store.encode fields store).2 :=
  insertAll_of_new store.hasObject_nextObject_eq_false fields (of_createObject store none)

theorem of_sourcePrototypes (source : Value) (store : Store) :
    store.Quiet (sourcePrototypes source store).2 := by
  unfold sourcePrototypes
  split
  · split
    · exact .refl store
    · exact .of_prototypeOf store _
  · exact .refl store
  · exact .refl store

theorem of_allPrototypes :
    ∀ (sources : List Value) (store : Store), store.Quiet (allPrototypes sources store).2
  | [], store => .refl store
  | source :: sources, store =>
      (of_sourcePrototypes source store).trans (of_allPrototypes sources _)

theorem of_prototypes (sources : List Value) (store : Store) :
    store.Quiet (prototypes sources store).2 :=
  of_allPrototypes sources store

private theorem of_traitDescriptor (source : Value) (name : String) (store : Store) :
    store.Quiet (traitDescriptor source name store).2 := by
  cases source with
  | procedure procedure => exact .of_prototypeOf store procedure
  | _ => exact .refl store

private theorem of_delete (object : ObjectId) (name : String) (store : Store) :
    store.Quiet (store.delete object name).2 := by
  unfold delete
  split
  · next deletable =>
    exact ⟨.of_step (.erase deletable), rfl, rfl, rfl, fun _ => .of_deletable store deletable⟩
  · exact .refl store

private theorem of_removeFrom (name : String) :
    ∀ (levels : List ObjectId) (store : Store), store.Quiet (removeFrom name levels store).2
  | [], store => .refl store
  | level :: levels, store =>
      (of_delete level name store).trans (of_removeFrom name levels _)

end Quiet

end Store

variable {σ α : Type}

/-! ### Programs and machines within bounds -/

def Program.KeepsTo (admits : Request → Prop) : Program σ → Prop
  | .done _ => True
  | .readState next => ∀ state, (next state).KeepsTo admits
  | .writeState _ next => next.KeepsTo admits
  | .readStore next => ∀ store, (next store).KeepsTo admits
  | .createCode code next =>
      (∀ entry, (code entry).KeepsTo admits) ∧ ∀ reference, (next reference).KeepsTo admits
  | .ask request next => admits request ∧ ∀ answer, (next answer).KeepsTo admits

theorem Program.keepsTo_of_all {admits : Request → Prop} (all : ∀ request, admits request)
    (program : Program σ) : program.KeepsTo admits := by
  induction program with
  | done result => trivial
  | readState next induction => exact induction
  | writeState state next induction => exact induction
  | readStore next induction => exact induction
  | createCode code next inside induction => exact ⟨inside, induction⟩
  | ask request next induction => exact ⟨all request, induction⟩

namespace Layer

def weaveAlone (meaning : Meaning σ) (layer : LayerId) : Action σ ProcedureId := do
  let woven ← weave meaning layer none
  Action.change (·.setStandalone layer woven)
  return woven

end Layer

open TraitComposition.Action (Follows)

structure Passage.BearsLibrary (passage : Passage σ) : Prop where
  quiet : ∀ {world : World σ} {store : Store}, world.store.Quiet store →
    passage.leads world { world with store := store }
  procedure : ∀ {procedure : Procedure}, procedure.Plain →
    Follows passage (Action.edit (·.addProcedure procedure) : Action σ ProcedureId)
  build : ∀ {meaning : Meaning σ}, (∀ code entry, Follows passage (meaning.enter code entry)) →
    ∀ weave : Weave, Follows passage (weave.build meaning)
  standalone : ∀ {meaning : Meaning σ},
    (∀ code entry, Follows passage (meaning.enter code entry)) →
      ∀ layer, Follows passage (Layer.weaveAlone meaning layer)

structure Passage.Bears (passage : Passage σ) (admits : Request → Prop) : Prop extends
    passage.BearsLibrary where
  state : ∀ (world : World σ) (state : σ), passage.leads world { world with state := state }
  code : ∀ (world : World σ) {code : Entry → Program σ},
    (∀ entry, (code entry).KeepsTo admits) → passage.leads world (world.addCode code).2
  insert : ∀ {object name value}, admits (.insert object name value) →
    Follows passage (Action.change (·.insert object name value) : Action σ Unit)
  report : ∀ entry, Follows passage (Action.change (·.report entry) : Action σ Unit)
  hook : ∀ procedure hook,
    Follows passage (Action.edit (·.withHook procedure hook) : Action σ ProcedureId)
  mark : ∀ {procedure mark}, admits (.withMark procedure mark) →
    Follows passage (Action.edit (·.withMark procedure mark) : Action σ ProcedureId)
  type : ∀ {prototype : ObjectId} {bases : Bases} (composer : Composer),
    prototype ∈ bases.prototypes →
      Follows passage (Action.edit (·.addComposite prototype bases composer) :
        Action σ ProcedureId)
  decorator : ∀ advice : Advice, Follows passage (advice.createDecorator : Action σ ProcedureId)

def Passage.Trusts (passage : Passage σ) (admits : Request → Prop) : Prop :=
  ∀ {world later : World σ} (code : CodeId) (entry : Entry),
    ((world.code code entry).KeepsTo admits → passage.leads world later) →
      passage.leads world later

structure Meaning.Within (passage : Passage σ) (meaning : Meaning σ) : Prop where
  call : ∀ procedure receiver arguments,
    Follows passage (meaning.call procedure receiver arguments)
  install : ∀ hook target name, Follows passage (meaning.install hook target name)
  enter : ∀ code entry, Follows passage (meaning.enter code entry)

namespace Passage.BearsLibrary

variable {passage : Passage σ} (bears : passage.BearsLibrary)

/-! ### Quiet actions -/

section Quiet

include bears

private theorem follows_edit {change : Store → α × Store}
    (quiet : ∀ store : Store, store.Quiet (change store).2) :
    Follows passage (Action.edit change : Action σ α) :=
  fun world => bears.quiet (quiet world.store)

private theorem follows_change {update : Store → Store}
    (quiet : ∀ store : Store, store.Quiet (update store)) :
    Follows passage (Action.change update : Action σ Unit) :=
  fun world => bears.quiet (quiet world.store)

theorem follows_createObject (parent : Option ObjectId) :
    Follows passage (Action.edit (·.createObject parent) : Action σ ObjectId) :=
  bears.follows_edit fun store => .of_createObject store parent

theorem follows_prototypeOf (procedure : ProcedureId) :
    Follows passage (Action.edit (·.prototypeOf procedure) : Action σ ObjectId) :=
  bears.follows_edit fun store => .of_prototypeOf store procedure

private theorem follows_delete (object : ObjectId) (name : String) :
    Follows passage (Action.edit (·.delete object name) : Action σ Bool) :=
  bears.follows_edit (.of_delete object name)

private theorem follows_remove (object : ObjectId) (name : String) :
    Follows passage (Action.edit (·.remove object name) : Action σ Nat) :=
  bears.follows_edit fun store => .of_removeFrom name _ store

theorem follows_encode (descriptor : Descriptor) :
    Follows passage (descriptor.encode : Action σ ObjectId) :=
  bears.follows_edit (.of_encode descriptor.fields)

private theorem follows_encodePatch (patch : Patch) :
    Follows passage (patch.encode : Action σ ObjectId) :=
  bears.follows_edit (.of_encode patch.fields)

theorem follows_delegate (base : Value) :
    Follows passage (Sources.delegate base : Action σ ObjectId) := by
  unfold Sources.delegate
  split
  · exact bears.follows_createObject _
  · exact Follows.bind (bears.follows_prototypeOf _) fun _ => bears.follows_createObject _
  · exact Follows.throw _

theorem follows_candidate (prototype : ObjectId) (receiver : Value) :
    Follows passage (Composite.candidate prototype receiver : Action σ ObjectId) := by
  unfold Composite.candidate
  split
  · apply Follows.bind Follows.getStore
    intro store
    split
    · exact Follows.pure _
    · exact bears.follows_createObject _
  · exact bears.follows_createObject _

end Quiet

section Operations

variable {meaning : Meaning σ} (within : meaning.Within passage)

/-! ### Members -/

include bears in
private theorem follows_memberDefine (object : ObjectId) (name : String) (descriptor : Descriptor) :
    Follows passage (Member.define object name descriptor : Action σ Unit) := by
  apply Follows.getStore_bind
  intro world
  split
  · exact bears.quiet (.of_define ‹_›)
  · exact Follows.throw _ world

include bears within

theorem follows_assign (object : ObjectId) (name : String) (value : Value) :
    Follows passage (Member.assign meaning object name value) := by
  apply Follows.getStore_bind
  intro world
  split
  · next missing => exact bears.quiet (.of_insert (Store.ownDescriptor?_of_missing missing) value)
  · next owner descriptor found =>
    split
    · exact Follows.bind (Follows.naming name (within.call _ _ _)) (fun _ => Follows.pure _) world
    · exact Follows.throw _ world
    · exact Follows.throw _ world
    · next old writable =>
      split
      · next equal =>
        subst owner
        exact bears.quiet (.of_update value (Store.ownDescriptor?_of_lookup found).2 writable)
      · next farther =>
        exact bears.quiet (.of_insert (Store.ownDescriptor?_of_farther found farther) value)

omit bears in
private theorem follows_invoke (object : ObjectId) (name : String) (arguments : List Value) :
    Follows passage (Member.invoke meaning object name arguments) := by
  apply Follows.bind (Member.follows_read within.call object name)
  intro value
  split
  · exact Follows.naming name (within.call _ _ _)
  · exact Follows.throw _

private theorem follows_complete (member : String) (patch : Patch) :
    Follows passage (patch.complete meaning member) :=
  Follows.bind (bears.follows_encodePatch patch) fun object =>
    Descriptor.follows_decode within.call member object

/-! ### Merging -/

omit bears in
theorem follows_definerOfValue (value : Value) :
    Follows passage (Definer.ofValue meaning value) := by
  unfold Definer.ofValue
  split
  · apply Follows.bind (Member.follows_read within.call _ _)
    intro found
    split
    · exact Follows.pure _
    · exact Follows.pure _
  · apply Follows.bind Follows.getStore
    intro store
    split
    · exact Follows.pure _
    · exact Follows.pure _
  · exact Follows.pure _

theorem follows_define (definer : Definer) (target : ObjectId) (name : String)
    (descriptor : Descriptor) :
    Follows passage (definer.define meaning target name descriptor) := by
  unfold Definer.define
  split
  · exact bears.follows_memberDefine target name descriptor
  · apply Follows.bind (bears.follows_encode descriptor)
    intro fields
    exact Follows.bind (Follows.naming name (within.call _ _ _)) fun _ => Follows.pure _

theorem respects (plan : Merge.Plan) (name : String) :
    Merge.Respects passage meaning plan name where
  asks := bears.follows_prototypeOf
  assign value := bears.follows_assign within plan.target name value
  define descriptor := bears.follows_define within plan.definer plan.target name descriptor
  install hook := within.install hook plan.target name

theorem follows_mixin (target : ObjectId) (sources : List Value) (definer : Definer) :
    Follows passage (mixin meaning target sources definer) :=
  Merge.follows_mixSources (bears.respects within _) 0 sources []

/-! ### Decorators -/

omit within in
private theorem follows_createDecorator (hook : Hook) (direct : Option ProcedureId) :
    Follows passage (Decorator.create hook direct : Action σ ProcedureId) :=
  bears.procedure ⟨rfl, rfl, nofun⟩

omit within in
private theorem follows_createAlias (source : AliasSource) (member : Option String) :
    Follows passage (Decorator.createAlias source member : Action σ ProcedureId) := by
  unfold Decorator.createAlias
  dsimp only
  split
  · exact Follows.bind (bears.follows_edit (.of_traitDescriptor _ _)) fun captured =>
      bears.follows_createDecorator _ _
  · exact Follows.bind (Follows.pure _) fun captured => bears.follows_createDecorator _ _

private theorem follows_patched (name : String) (inherited : Descriptor) (patch : Patch) :
    Follows passage (Decorator.patched meaning name inherited patch) := by
  apply Follows.bind (bears.follows_encode inherited)
  intro merged
  apply Follows.bind (bears.follows_encodePatch patch)
  intro fields
  exact Follows.bind (bears.follows_mixin within merged _ .raw) fun _ =>
    Descriptor.follows_decode within.call name merged

private theorem follows_installPatch (patch : Patch) (target : ObjectId) (name : String) :
    Follows passage (Decorator.installPatch meaning patch target name) := by
  apply Follows.bind Follows.getStore
  intro store
  dsimp only
  split
  · exact Follows.bind (bears.follows_patched within name _ patch) fun descriptor =>
      bears.follows_memberDefine target name descriptor
  · exact Follows.bind (bears.follows_complete within name patch) fun descriptor =>
      bears.follows_memberDefine target name descriptor

omit within in
private theorem follows_aliasedDescriptor (source : AliasSource) (member : Option String)
    (captured : Option Descriptor) (target : ObjectId) (name : String) :
    Follows passage (Decorator.aliasedDescriptor source member captured target name :
      Action σ (String × Option Descriptor)) := by
  unfold Decorator.aliasedDescriptor
  split
  · exact Follows.bind Follows.getStore fun _ => Follows.pure _
  · split
    · exact Follows.pure _
    · exact Follows.bind (bears.follows_edit (.of_traitDescriptor _ _)) fun _ => Follows.pure _

omit within in
private theorem follows_installAlias (source : AliasSource) (member : Option String)
    (captured : Option Descriptor) (target : ObjectId) (name : String) :
    Follows passage (Decorator.installAlias source member captured target name :
      Action σ Unit) := by
  apply Follows.bind (bears.follows_aliasedDescriptor source member captured target name)
  intro found
  split
  · exact bears.follows_memberDefine target name _
  · exact Follows.throw _

private theorem follows_installWeave (weave : Weave) (target : ObjectId) (name : String) :
    Follows passage (Decorator.installWeave meaning weave target name) := by
  apply Follows.bind Follows.getStore
  intro store
  apply Follows.bind (bears.build within.enter _)
  intro built
  split
  · exact bears.follows_assign within target name _
  · exact Follows.pure _

theorem follows_install (hook : Hook) (target : ObjectId) (name : String) :
    Follows passage (Decorator.install meaning hook target name) := by
  unfold Decorator.install
  split
  · exact bears.follows_installWeave within _ target name
  · exact bears.follows_installPatch within _ target name
  · exact bears.follows_installAlias _ _ _ target name
  · exact Follows.bind (within.enter _ _) fun _ => Follows.pure _

/-! ### Construction -/

theorem follows_absorb (target returned : ObjectId) :
    Follows passage (Composite.absorb meaning target returned) := by
  apply Follows.bind (BearsLibrary.follows_definerOfValue within _)
  intro definer
  refine Follows.bind Follows.getStore fun store => Follows.forM (fun name => ?_) _
  apply Follows.bind Follows.getStore
  intro store
  split
  · exact Follows.bind (Member.follows_read within.call returned name) fun value =>
      bears.follows_assign within target name value
  · split
    · exact bears.follows_define within definer target name _
    · exact Follows.pure _

theorem follows_materialize (target : ObjectId) :
    Follows passage (Composite.materialize meaning target) := by
  apply Follows.bind (BearsLibrary.follows_definerOfValue within _)
  intro definer
  refine Follows.bind Follows.getStore fun store => Follows.forM (fun name => ?_) _
  apply Follows.bind Follows.getStore
  intro store
  split
  · exact Follows.pure _
  · split
    · split
      · exact bears.follows_define within definer target name _
      · exact Follows.pure _
    · exact Follows.pure _

private theorem follows_runConstructors (prototype : ObjectId) (arguments : List Value) :
    ∀ (constructors : List ProcedureId) (instanceObject : ObjectId),
      Follows passage
        (Composite.runConstructors meaning prototype arguments constructors instanceObject)
  | [], _ => Follows.pure _
  | constructor :: constructors, instanceObject => by
      apply Follows.bind (within.call _ _ _)
      intro answer
      split
      · apply Follows.bind Follows.getStore
        intro store
        split
        · exact follows_runConstructors prototype arguments constructors _
        · exact Follows.bind (bears.follows_absorb within _ _) fun _ =>
            follows_runConstructors prototype arguments constructors _
      · exact follows_runConstructors prototype arguments constructors _

private theorem follows_construct (type : Composite) (receiver : Value) (arguments : List Value) :
    Follows passage (type.construct meaning receiver arguments) := by
  apply Follows.bind (bears.follows_candidate _ _)
  intro start
  apply Follows.bind (bears.follows_runConstructors within _ _ _ _)
  intro built
  split
  · exact Follows.bind (bears.follows_materialize within built) fun _ => Follows.pure _
  · exact Follows.pure _

/-! ### Calls -/

theorem follows_call (procedure : Procedure) (receiver : Value) (arguments : List Value) :
    Follows passage (procedure.call meaning receiver arguments) := by
  unfold Procedure.call
  split
  · exact within.enter _ _
  · exact Follows.throw _
  · exact Follows.throw _
  · exact within.call _ _ _
  · apply Follows.bind Follows.getStore
    intro store
    split
    · exact Follows.bind (bears.follows_construct within _ _ _) fun _ => Follows.pure _
    · exact Follows.pure _
  · exact within.enter _ _
  · apply Follows.bind (within.enter _ _)
    intro answer
    split
    · exact Follows.pure _
    · exact Follows.pure _
    · exact within.call _ _ _
    · exact within.call _ _ _
  · apply Follows.bind (within.call _ _ _)
    intro result
    exact Follows.bind (within.call _ _ _) fun advised => Follows.pure _
  · next layer _ =>
    apply Follows.bind Follows.getStore
    intro store
    split
    · exact within.call _ _ _
    · have alone := Follows.bind (bears.standalone within.enter layer) fun woven =>
        within.call woven receiver arguments
      simpa only [Layer.weaveAlone, bind_assoc, pure_bind] using alone
  · exact Follows.throw _

end Operations

end Passage.BearsLibrary

namespace Passage.Bears

variable {passage : Passage σ} {admits : Request → Prop} (bears : passage.Bears admits)

include bears

private theorem follows_reportAll (observer : Observer) (conflicts : List Conflict) :
    Follows passage (Action.change fun store =>
      conflicts.foldl (fun store conflict => store.report (.conflict observer conflict)) store :
        Action σ Unit) := by
  intro world
  induction conflicts generalizing world with
  | nil => exact passage.refl world
  | cons conflict conflicts induction =>
      exact passage.trans (bears.report (.conflict observer conflict) world) (induction _)

theorem follows_report (composer : Composer) (conflicts : List Conflict) :
    Follows passage (composer.report conflicts : Action σ Unit) := by
  apply Follows.bind (bears.follows_reportAll composer.observer conflicts)
  intro _
  split
  · exact Follows.throw _
  · exact Follows.pure _

section Operations

variable {meaning : Meaning σ} (within : meaning.Within passage)

include within

/-! ### Composition -/

theorem follows_composeTable (composer : Composer) (base : Value) (sources : List Value) :
    Follows passage (composer.composeTable meaning base sources) := by
  unfold Composer.composeTable
  split
  · exact Follows.pure _
  · apply Follows.bind (bears.follows_delegate base)
    intro target
    apply Follows.bind (BearsLibrary.follows_definerOfValue within base)
    intro definer
    apply Follows.bind (bears.follows_mixin within target sources definer)
    intro conflicts
    exact Follows.bind (bears.follows_report composer conflicts) fun _ => Follows.pure _

theorem follows_compose (composer : Composer) (sources : List Value) :
    Follows passage (composer.compose meaning sources) := by
  apply Follows.bind (Follows.ofExcept _)
  intro _
  apply Follows.bind (bears.follows_composeTable within composer _ _)
  intro prototype
  apply Follows.bind Follows.getStore
  intro store
  apply Follows.bind (bears.follows_edit (.of_prototypes _))
  intro tables
  exact bears.type composer (by simp)

private theorem follows_mixinInto (composer : Composer) (target : ObjectId) (sources : List Value) :
    Follows passage (composer.mixinInto meaning target sources) := by
  apply Follows.bind (Follows.ofExcept _)
  intro _
  apply Follows.bind (BearsLibrary.follows_definerOfValue within _)
  intro definer
  apply Follows.bind (bears.follows_mixin within target sources definer)
  intro conflicts
  exact Follows.bind (bears.follows_report composer conflicts) fun _ => Follows.pure _

omit bears in
theorem follows_runInitializers (sources : List Value) (instanceObject : ObjectId) :
    Follows passage (Composer.runInitializers meaning sources instanceObject) := by
  induction sources generalizing instanceObject with
  | nil => exact Follows.pure _
  | cons source sources induction =>
    cases source with
    | procedure initializer =>
      apply Follows.bind (within.call _ _ _)
      intro answer
      cases answer with
      | object replacement => exact induction replacement
      | _ => exact induction instanceObject
    | _ => exact induction instanceObject

private theorem follows_create (composer : Composer) (base : Value) (sources : List Value) :
    Follows passage (composer.create meaning base sources) := by
  apply Follows.bind (Follows.ofExcept _)
  intro _
  apply Follows.bind (Follows.ofExcept _)
  intro _
  apply Follows.bind (bears.follows_delegate base)
  intro target
  apply Follows.bind (BearsLibrary.follows_definerOfValue within base)
  intro definer
  apply Follows.bind (bears.follows_mixin within target sources definer)
  intro conflicts
  exact Follows.bind (bears.follows_report composer conflicts) fun _ =>
    follows_runInitializers within (base :: sources) target

/-! ### Requests and programs -/

theorem follows_perform {request : Request} (admitted : admits request) :
    Follows passage (request.perform meaning) := by
  cases request with
  | createObject parent => exact bears.follows_createObject parent
  | insert object name value => exact bears.insert admitted
  | read object name => exact Member.follows_read within.call object name
  | assign object name value => exact bears.follows_assign within object name value
  | define object name descriptor => exact bears.follows_memberDefine object name descriptor
  | delete object name => exact bears.follows_delete object name
  | remove object name => exact bears.follows_remove object name
  | invoke object name arguments => exact BearsLibrary.follows_invoke within object name arguments
  | encode descriptor => exact bears.follows_encode descriptor
  | decode member object => exact Descriptor.follows_decode within.call member object
  | encodePatch patch => exact bears.follows_encodePatch patch
  | completePatch member patch => exact bears.follows_complete within member patch
  | createProcedure | createConstructible => exact bears.procedure ⟨rfl, rfl, nofun⟩
  | call procedure receiver arguments => exact within.call procedure receiver arguments
  | prototypeOf procedure => exact bears.follows_prototypeOf procedure
  | withHook procedure hook => exact bears.hook procedure hook
  | withMark procedure mark => exact bears.mark admitted
  | install hook target name => exact within.install hook target name
  | createDecorator hook direct => exact bears.follows_createDecorator hook direct
  | createAlias source member => exact bears.follows_createAlias source member
  | createAdvice advice => exact bears.decorator advice
  | build weave => exact bears.build within.enter weave
  | prototypes sources => exact bears.follows_edit (.of_prototypes sources)
  | delegate base => exact bears.follows_delegate base
  | definerFor value => exact BearsLibrary.follows_definerOfValue within value
  | defineThrough definer object name descriptor =>
      exact bears.follows_define within definer object name descriptor
  | mixin target sources definer => exact bears.follows_mixin within target sources definer
  | compose composer sources => exact bears.follows_compose within composer sources
  | create composer base sources => exact bears.follows_create within composer base sources
  | mixinInto composer target sources =>
      exact bears.follows_mixinInto within composer target sources
  | extend type sources => exact bears.follows_compose within type.composer _
  | construct type arguments => exact bears.follows_construct within type _ arguments
  | setDefiner type definer =>
      exact bears.follows_change fun store => .of_setDefiner store type definer
  | note value => exact bears.report (.note value)

theorem follows_run {program : Program σ} (keeps : program.KeepsTo admits) :
    Follows passage (program.run meaning) := by
  induction program with
  | done result => exact Follows.ofExcept result
  | readState next induction => exact fun world => induction _ (keeps world.state) world
  | writeState state next induction =>
      exact fun world => passage.trans (bears.state world state) (induction keeps _)
  | readStore next induction => exact fun world => induction _ (keeps world.store) world
  | createCode code next _ induction =>
      exact fun world =>
        passage.trans (bears.code world keeps.1) (induction _ (keeps.2 _) _)
  | ask request next induction =>
      exact Follows.bind (Follows.outcome (bears.follows_perform within keeps.1)) fun answer =>
        induction answer (keeps.2 answer)

end Operations

/-! ### The knot -/

include bears

theorem within_step (trusts : passage.Trusts admits) {meaning : Meaning σ}
    (within : meaning.Within passage) : meaning.step.Within passage where
  call _ receiver arguments :=
    Follows.bind Follows.getStore fun _ => bears.follows_call within _ receiver arguments
  install hook target name := bears.follows_install within hook target name
  enter code entry := fun world =>
    trusts code entry fun keeps => bears.follows_run within keeps world

/-- Whatever the machine does, with whatever user code keeps to what is admitted, is a
passage. -/
theorem within_ofBudget (trusts : passage.Trusts admits) (budget : Nat) :
    (Meaning.ofBudget budget : Meaning σ).Within passage := by
  induction budget with
  | zero =>
    exact
      { call := fun _ _ _ => Follows.throw _
        install := fun _ _ _ => Follows.throw _
        enter := fun _ _ => Follows.throw _ }
  | succ budget induction =>
    rw [Meaning.ofBudget_succ]
    exact bears.within_step trusts induction

end Passage.Bears

end TraitComposition
