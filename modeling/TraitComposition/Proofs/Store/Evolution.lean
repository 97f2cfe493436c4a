import Mathlib.Logic.Relation
import TraitComposition.Proofs.Store.Writing

/-!
How a store evolves. Everything that is ever done to a store is a sequence of steps,
and a step is one of a dozen changes. What all of them keep is kept for ever: what
has an identity stays, an object keeps its parent, a procedure its behaviour, and a
composite type its table and its flattened bases.
-/
namespace TraitComposition.Store

/-! ### Steps -/

/-- One change of a store. Members are stored in three ways: unchecked, as a new value
of a writable member, and as a definition that the object accepts. -/
inductive Step : Store → Store → Prop
  | createObject (store : Store) (parent : Option ObjectId) :
      Step store (store.createObject parent).2
  | insert (store : Store) (object : ObjectId) (name : String) (value : Value) :
      Step store (store.insert object name value)
  | update {store : Store} {object : ObjectId} {name : String} {descriptor : Descriptor}
      {old : Value} (value : Value)
      (owned : store.ownDescriptor? object name = some descriptor)
      (writable : descriptor.shape = .data old true) :
      Step store (store.storeMember object name (descriptor.withValue value))
  | define {store : Store} {object : ObjectId} {name : String} {descriptor : Descriptor}
      (accepted : store.accepts object name descriptor = true) :
      Step store (store.storeMember object name descriptor)
  | erase {store : Store} {object : ObjectId} {name : String}
      (deletable : store.deletable object name = true) :
      Step store (store.eraseMember object name)
  | addProcedure (store : Store) {procedure : Procedure} (tableless : procedure.table = none) :
      Step store (store.addProcedure procedure).2
  | prototypeOf (store : Store) (procedure : ProcedureId) :
      Step store (store.prototypeOf procedure).2
  | addLayer (store : Store) (layer : Layer) : Step store (store.addLayer layer).2
  | setStandalone (store : Store) (layer : LayerId) (procedure : ProcedureId) :
      Step store (store.setStandalone layer procedure)
  | addComposite (store : Store) {prototype : ObjectId} {bases : Bases} (composer : Composer)
      (own : prototype ∈ bases.prototypes) :
      Step store (store.addComposite prototype bases composer).2
  | setDefiner (store : Store) (type : CompositeId) (definer : ProcedureId) :
      Step store (store.setDefiner type definer)
  | report (store : Store) (entry : Report) : Step store (store.report entry)

def Evolves : Store → Store → Prop :=
  Relation.ReflTransGen Step

namespace Evolves

variable {first second third : Store}

theorem refl (store : Store) : store.Evolves store :=
  Relation.ReflTransGen.refl

theorem trans (start : first.Evolves second) (rest : second.Evolves third) :
    first.Evolves third :=
  Relation.ReflTransGen.trans start rest

theorem of_step (step : Step first second) : first.Evolves second :=
  Relation.ReflTransGen.single step

end Evolves

/-! ### What every step keeps -/

/-- Whether everything with an identity in `before` is still there in `after`, the same
but for its members, for a table or a standalone layer made on first use, and for a
definer set on a type. -/
structure Extends (before after : Store) : Prop where
  object : ∀ reference, before.hasObject reference = true →
    after.hasObject reference = true ∧ after.parent reference = before.parent reference
  procedure : ∀ reference, before.hasProcedure reference = true →
    after.hasProcedure reference = true ∧
      ∃ table, after.procedure reference = { before.procedure reference with table := table } ∧
        ∀ known, (before.procedure reference).table = some known → table = some known
  layer : ∀ reference layer, before.layer reference = some layer →
    ∃ standalone, after.layer reference = some { layer with standalone := standalone }
  composite : ∀ reference composite, before.composite reference = some composite →
    ∃ definer, after.composite reference = some { composite with definer := definer }
  journal : before.journal.toList <+: after.journal.toList

namespace Extends

variable {first second third : Store}

theorem refl (store : Store) : store.Extends store where
  object _ known := ⟨known, rfl⟩
  procedure _ known := ⟨known, _, rfl, fun _ found => found⟩
  layer _ layer found := ⟨layer.standalone, found⟩
  composite _ composite found := ⟨composite.definer, found⟩
  journal := List.prefix_refl _

theorem trans (start : first.Extends second) (rest : second.Extends third) :
    first.Extends third where
  object reference known := by
    rcases start.object reference known with ⟨knownThen, parentThen⟩
    rcases rest.object reference knownThen with ⟨knownNow, parentNow⟩
    exact ⟨knownNow, parentNow.trans parentThen⟩
  procedure reference known := by
    rcases start.procedure reference known with ⟨knownThen, tableThen, bodyThen, keptThen⟩
    rcases rest.procedure reference knownThen with ⟨knownNow, tableNow, bodyNow, keptNow⟩
    refine ⟨knownNow, tableNow, by rw [bodyNow, bodyThen], fun table found => keptNow table ?_⟩
    rw [bodyThen]
    exact keptThen table found
  layer reference layer found := by
    rcases start.layer reference layer found with ⟨_, foundThen⟩
    rcases rest.layer reference _ foundThen with ⟨standalone, foundNow⟩
    exact ⟨standalone, foundNow⟩
  composite reference composite found := by
    rcases start.composite reference composite found with ⟨_, foundThen⟩
    rcases rest.composite reference _ foundThen with ⟨definer, foundNow⟩
    exact ⟨definer, foundNow⟩
  journal := start.journal.trans rest.journal

theorem of_updateMembers (store : Store) (target : ObjectId)
    (update : MemberTable → MemberTable) :
    store.Extends (store.updateMembers target update) :=
  { refl store with
    object := fun _ known => ⟨by simpa using known, by simp⟩ }

theorem of_storeMember (store : Store) (target : ObjectId) (name : String)
    (descriptor : Descriptor) : store.Extends (store.storeMember target name descriptor) :=
  of_updateMembers store target (·.insert name descriptor)

private theorem of_eraseMember (store : Store) (target : ObjectId) (name : String) :
    store.Extends (store.eraseMember target name) :=
  of_updateMembers store target (·.erase name)

theorem of_createObject (store : Store) (parent : Option ObjectId) :
    store.Extends (store.createObject parent).2 :=
  { refl store with
    object := fun _ known =>
      ⟨hasObject_createObject parent known, by
        rw [Store.parent, object_createObject_of_hasObject parent known, ← Store.parent]⟩ }

theorem of_addProcedure (store : Store) (procedure : Procedure) :
    store.Extends (store.addProcedure procedure).2 :=
  { refl store with
    procedure := fun _ known =>
      ⟨hasProcedure_addProcedure procedure known, _,
        procedure_addProcedure_of_hasProcedure procedure known, fun _ found => found⟩ }

theorem of_updateProcedure {store : Store} {target : ProcedureId} (table : ObjectId)
    (tableless : (store.procedure target).table = none) :
    store.Extends (store.updateProcedure target fun procedure =>
      { procedure with table := some table }) :=
  { refl store with
    procedure := fun reference known => by
      refine ⟨by simpa using known, ?_⟩
      rw [procedure_updateProcedure]
      by_cases same : target = reference
      · subst target
        refine ⟨some table, by rw [if_pos ⟨rfl, known⟩], fun other found => ?_⟩
        rw [tableless] at found
        cases found
      · exact ⟨_, by rw [if_neg fun both => same both.1], fun _ found => found⟩ }

theorem of_prototypeOf (store : Store) (procedure : ProcedureId) :
    store.Extends (store.prototypeOf procedure).2 := by
  rcases store.prototypeOf_cases procedure with unchanged | ⟨tableless, made⟩
  · rw [unchanged]
    exact refl store
  · rw [made]
    exact (of_createObject store none).trans (of_updateProcedure _ tableless)

theorem of_addLayer (store : Store) (layer : Layer) : store.Extends (store.addLayer layer).2 :=
  { refl store with
    layer := fun reference found known => by
      have inside : reference.index < store.layers.size :=
        (Array.getElem?_eq_some_iff.mp known).1
      refine ⟨found.standalone, ?_⟩
      rw [Store.layer, addLayer, Array.getElem?_push_lt inside, ← Array.getElem?_eq_getElem inside]
      exact known }

theorem of_setStandalone (store : Store) (target : LayerId) (procedure : ProcedureId) :
    store.Extends (store.setStandalone target procedure) :=
  { refl store with
    layer := fun reference found known => by
      rw [Store.layer] at known
      rw [Store.layer, setStandalone, Array.getElem?_modify, known]
      split
      · exact ⟨some procedure, rfl⟩
      · exact ⟨found.standalone, rfl⟩ }

theorem of_addComposite (store : Store) (prototype : ObjectId) (bases : Bases)
    (composer : Composer) : store.Extends (store.addComposite prototype bases composer).2 :=
  { of_addProcedure store
      { label := some "composite", body := .composite ⟨store.composites.size⟩ } with
    composite := fun reference composite known => by
      have inside : reference.index < store.composites.size :=
        (Array.getElem?_eq_some_iff.mp known).1
      refine ⟨composite.definer, ?_⟩
      simp only [Store.composite, addComposite, composites_addProcedure]
      rw [Array.getElem?_push_lt inside, ← Array.getElem?_eq_getElem inside]
      exact known }

private theorem of_setDefiner (store : Store) (type : CompositeId) (definer : ProcedureId) :
    store.Extends (store.setDefiner type definer) :=
  { refl store with
    composite := fun reference composite known => by
      rw [Store.composite] at known
      rw [Store.composite, setDefiner, Array.getElem?_modify, known]
      split
      · exact ⟨some definer, rfl⟩
      · exact ⟨composite.definer, rfl⟩ }

theorem of_report (store : Store) (entry : Report) : store.Extends (store.report entry) :=
  { refl store with
    journal := by
      rw [report, Array.toList_push]
      exact List.prefix_append _ _ }

theorem of_step (step : Step first second) : first.Extends second := by
  cases step with
  | createObject parent => exact of_createObject _ parent
  | insert | update | define => exact of_storeMember _ _ _ _
  | erase => exact of_eraseMember _ _ _
  | addProcedure => exact of_addProcedure _ _
  | prototypeOf procedure => exact of_prototypeOf _ procedure
  | addLayer layer => exact of_addLayer _ layer
  | setStandalone layer procedure => exact of_setStandalone _ layer procedure
  | addComposite composer own => exact of_addComposite _ _ _ composer
  | setDefiner type definer => exact of_setDefiner _ type definer
  | report entry => exact of_report _ entry

end Extends

theorem Evolves.extends {before after : Store} (evolution : before.Evolves after) :
    before.Extends after := by
  induction evolution with
  | refl => exact Extends.refl _
  | tail _ step induction => exact induction.trans (Extends.of_step step)

end TraitComposition.Store
