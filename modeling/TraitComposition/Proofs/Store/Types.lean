import TraitComposition.Flattening
import TraitComposition.Proofs.Store.Lookup

/-!
Composite types in an evolving store. A type is found under its procedure value, keeps
its table and its flattened bases, and as a source it contributes them.
-/
namespace TraitComposition.Store

/-- Whether a procedure of the store is a plain one: it has a table of its own, and
contributes itself as a constructor. -/
def isPlain (store : Store) (reference : ProcedureId) : Bool :=
  store.hasProcedure reference &&
    match (store.procedure reference).body with
    | .composite _ | .constructible .. => false
    | _ => true

theorem procedure_of_not_hasProcedure {store : Store} {reference : ProcedureId}
    (absent : store.hasProcedure reference = false) :
    store.procedure reference = { body := .required } := by
  have beyond : store.procedures.size ≤ reference.index := by
    simpa [hasProcedure] using absent
  simp [procedure, Array.getD_eq_getD_getElem?, Array.getElem?_eq_none beyond]

theorem hasProcedure_of_body_ne {store : Store} {procedure : ProcedureId}
    (body : (store.procedure procedure).body ≠ .required) :
    store.hasProcedure procedure = true := by
  cases known : store.hasProcedure procedure with
  | true => rfl
  | false =>
      rw [procedure_of_not_hasProcedure known] at body
      exact absurd rfl body

theorem hasProcedure_of_mark {store : Store} {procedure : ProcedureId} {mark : Mark}
    (marked : (store.procedure procedure).mark = some mark) :
    store.hasProcedure procedure = true := by
  cases known : store.hasProcedure procedure with
  | true => rfl
  | false =>
      rw [procedure_of_not_hasProcedure known] at marked
      cases marked

theorem hasProcedure_of_implemented {store : Store} {reference : ProcedureId}
    (implemented : store.isRequired reference = false) : store.hasProcedure reference = true := by
  cases known : store.hasProcedure reference with
  | true => rfl
  | false =>
      rw [isRequired, procedure_of_not_hasProcedure known] at implemented
      cases implemented

theorem hasProcedure_of_composite? {store : Store} {type : ProcedureId} {composite : Composite}
    (found : store.composite? type = some composite) : store.hasProcedure type = true := by
  cases known : store.hasProcedure type with
  | true => rfl
  | false =>
      rw [composite?, procedure_of_not_hasProcedure known] at found
      cases found

theorem body_of_composite? {store : Store} {type : ProcedureId} {composite : Composite}
    (found : store.composite? type = some composite) :
    ∃ reference, (store.procedure type).body = .composite reference ∧
      store.composite reference = some composite := by
  unfold composite? at found
  split at found
  · next reference body => exact ⟨reference, body, found⟩
  · cases found

theorem bases?_of_composite? {store : Store} {type : ProcedureId} {composite : Composite}
    (found : store.composite? type = some composite) :
    store.bases? type = some composite.bases := by
  rcases body_of_composite? found with ⟨reference, body, known⟩
  rw [bases?, body]
  simp only [known, Option.map_some]

theorem bases?_of_isPlain {store : Store} {reference : ProcedureId}
    (plain : store.isPlain reference = true) : store.bases? reference = none := by
  unfold isPlain at plain
  unfold bases?
  cases body : (store.procedure reference).body <;> simp_all

theorem composite?_of_isPlain {store : Store} {reference : ProcedureId}
    (plain : store.isPlain reference = true) : store.composite? reference = none := by
  unfold isPlain at plain
  unfold composite?
  cases body : (store.procedure reference).body <;> simp_all

theorem prototypeOf_of_composite? {store : Store} {type : ProcedureId} {composite : Composite}
    (found : store.composite? type = some composite) :
    store.prototypeOf type = (composite.prototype, store) := by
  rcases body_of_composite? found with ⟨reference, body, known⟩
  unfold prototypeOf
  simp only [body, known, Option.map_some, Option.getD_some]

/-! A plain procedure has a table once it was asked for one. -/

theorem prototypeOf_of_table {store : Store} {reference : ProcedureId} {table : ObjectId}
    (plain : store.isPlain reference = true)
    (made : (store.procedure reference).table = some table) :
    store.prototypeOf reference = (table, store) := by
  unfold isPlain at plain
  unfold prototypeOf
  cases body : (store.procedure reference).body <;> simp_all

theorem prototypeOf_of_tableless {store : Store} {reference : ProcedureId}
    (plain : store.isPlain reference = true)
    (tableless : (store.procedure reference).table = none) :
    store.prototypeOf reference =
      (⟨store.objects.size⟩,
        (store.createObject none).2.updateProcedure reference fun procedure =>
          { procedure with table := some ⟨store.objects.size⟩ }) := by
  unfold isPlain at plain
  unfold prototypeOf
  cases body : (store.procedure reference).body <;> simp_all

/-! ### New types -/

theorem composite?_addComposite_self (store : Store) (prototype : ObjectId) (bases : Bases)
    (composer : Composer) :
    (store.addComposite prototype bases composer).2.composite? ⟨store.procedures.size⟩ =
      some { procedure := ⟨store.procedures.size⟩, prototype, bases, composer } := by
  have body : ((store.addComposite prototype bases composer).2.procedure
      ⟨store.procedures.size⟩).body = .composite ⟨store.composites.size⟩ := by
    simp [addComposite, addProcedure, Store.procedure, Array.getD_eq_getD_getElem?]
  rw [composite?, body]
  simp [addComposite, addProcedure, Store.composite]

/-! ### Evolution -/

namespace Extends

variable {before after : Store}

theorem body (extends_ : before.Extends after) {reference : ProcedureId}
    (known : before.hasProcedure reference = true) :
    (after.procedure reference).body = (before.procedure reference).body := by
  rcases (extends_.procedure reference known).2 with ⟨_, same, _⟩
  rw [same]

theorem body_eq_of_ne (extends_ : before.Extends after) {procedure : ProcedureId}
    {body : Body} (found : (before.procedure procedure).body = body)
    (implemented : body ≠ .required) :
    (after.procedure procedure).body = body :=
  (extends_.body (hasProcedure_of_body_ne (found ▸ implemented))).trans found

theorem hook (extends_ : before.Extends after) {reference : ProcedureId}
    (known : before.hasProcedure reference = true) :
    (after.procedure reference).hook = (before.procedure reference).hook := by
  rcases (extends_.procedure reference known).2 with ⟨_, same, _⟩
  rw [same]

theorem mark (extends_ : before.Extends after) {reference : ProcedureId}
    (known : before.hasProcedure reference = true) :
    (after.procedure reference).mark = (before.procedure reference).mark := by
  rcases (extends_.procedure reference known).2 with ⟨_, same, _⟩
  rw [same]

theorem isRequired (extends_ : before.Extends after) {reference : ProcedureId}
    (known : before.hasProcedure reference = true) :
    after.isRequired reference = before.isRequired reference := by
  rw [Store.isRequired, Store.isRequired, extends_.body known]

theorem isPlain (extends_ : before.Extends after) {reference : ProcedureId}
    (plain : before.isPlain reference = true) : after.isPlain reference = true := by
  unfold Store.isPlain at plain ⊢
  rw [Bool.and_eq_true] at plain ⊢
  rw [extends_.body plain.1]
  exact ⟨(extends_.procedure reference plain.1).1, plain.2⟩

theorem composite? (extends_ : before.Extends after) {type : ProcedureId}
    {composite : Composite} (found : before.composite? type = some composite) :
    ∃ definer, after.composite? type = some { composite with definer := definer } := by
  rcases body_of_composite? found with ⟨reference, body, known⟩
  rcases extends_.composite reference composite known with ⟨definer, kept⟩
  refine ⟨definer, ?_⟩
  rw [Store.composite?, extends_.body (hasProcedure_of_composite? found), body]
  exact kept

end Extends

/-- Whether a store has a composite type in full: the type is found, and its flattened
tables are there, its own among them. -/
structure Houses (store : Store) (type : ProcedureId) (composite : Composite) : Prop where
  found : store.composite? type = some composite
  own : composite.prototype ∈ composite.bases.prototypes
  known : ∀ table ∈ composite.bases.prototypes, store.hasObject table = true

theorem Houses.hasObject_prototype {store : Store} {type : ProcedureId} {composite : Composite}
    (houses : store.Houses type composite) : store.hasObject composite.prototype = true :=
  houses.known _ houses.own

theorem Houses.extends {before after : Store} {type : ProcedureId} {composite : Composite}
    (houses : before.Houses type composite) (extends_ : before.Extends after) :
    ∃ definer, after.Houses type { composite with definer := definer } := by
  rcases extends_.composite? houses.found with ⟨definer, found⟩
  exact ⟨definer, found, houses.own, fun table member =>
    (extends_.object table (houses.known table member)).1⟩

/-! ### Sources that are there

A type is there in full if its table is among its flattened tables and all of them are there. -/

inductive Present (store : Store) : Value → Prop
  | type {type : ProcedureId} {composite : Composite} (houses : store.Houses type composite) :
      Present store (.procedure type)
  | plain {reference : ProcedureId} (plain : store.isPlain reference = true) :
      Present store (.procedure reference)
  | table {object : ObjectId} (known : store.hasObject object = true) :
      Present store (.object object)

theorem Present.extends {before after : Store} {source : Value} (present : before.Present source)
    (extends_ : before.Extends after) : after.Present source := by
  cases present with
  | type houses =>
      rcases houses.extends extends_ with ⟨definer, housesAfter⟩
      exact .type housesAfter
  | plain plain => exact .plain (extends_.isPlain plain)
  | table known => exact .table (extends_.object _ known).1

/-- Whether a source has a member table, and which. A plain procedure that was never asked
for its table has none. -/
inductive Fronts (store : Store) : Value → ObjectId → Prop
  | type {type : ProcedureId} {composite : Composite} (houses : store.Houses type composite) :
      Fronts store (.procedure type) composite.prototype
  | plain {reference : ProcedureId} {table : ObjectId} (plain : store.isPlain reference = true)
      (made : (store.procedure reference).table = some table) :
      Fronts store (.procedure reference) table
  | table {object : ObjectId} (known : store.hasObject object = true) :
      Fronts store (.object object) object

theorem Fronts.extends {before after : Store} {source : Value} {table : ObjectId}
    (fronts : before.Fronts source table) (extends_ : before.Extends after) :
    after.Fronts source table := by
  cases fronts with
  | type houses =>
      rcases houses.extends extends_ with ⟨definer, housesAfter⟩
      have frontsAfter := Fronts.type housesAfter
      exact frontsAfter
  | plain plain made =>
      have known := plain
      rw [isPlain, Bool.and_eq_true] at known
      rcases extends_.procedure _ known.1 with ⟨_, _, same, keeps⟩
      refine .plain (extends_.isPlain plain) ?_
      rw [same]
      exact keeps table made
  | table known => exact .table (extends_.object _ known).1

namespace Fronts

variable {store : Store} {source : Value} {table : ObjectId}

theorem prototypeOf_eq {reference : ProcedureId}
    (fronts : store.Fronts (.procedure reference) table) :
    store.prototypeOf reference = (table, store) := by
  cases fronts with
  | type houses => exact prototypeOf_of_composite? houses.found
  | plain plain made => exact prototypeOf_of_table plain made

theorem unique {other : ObjectId} (fronts : store.Fronts source table)
    (also : store.Fronts source other) : table = other := by
  cases source with
  | procedure reference =>
      have same := fronts.prototypeOf_eq.symm.trans also.prototypeOf_eq
      exact congrArg Prod.fst same
  | object object =>
      cases fronts
      cases also
      rfl
  | _ => cases fronts

theorem mem_sourcePrototypes (fronts : store.Fronts source table) :
    table ∈ (sourcePrototypes source store).1 := by
  cases fronts with
  | type houses =>
      rw [sourcePrototypes, bases?_of_composite? houses.found]
      exact houses.own
  | plain plain made =>
      rw [sourcePrototypes, bases?_of_isPlain plain, prototypeOf_of_table plain made]
      exact List.mem_singleton.mpr rfl
  | table known => exact List.mem_singleton.mpr rfl

end Fronts

theorem Present.fronts {store : Store} {reference : ProcedureId}
    (present : store.Present (.procedure reference)) :
    (store.prototypeOf reference).2.Fronts (.procedure reference)
      (store.prototypeOf reference).1 := by
  cases present with
  | type houses =>
      rw [prototypeOf_of_composite? houses.found]
      exact .type houses
  | plain plain =>
      have plainThen := (Extends.of_prototypeOf store reference).isPlain plain
      cases made : (store.procedure reference).table with
      | some table =>
          rw [prototypeOf_of_table plain made]
          exact .plain plain made
      | none =>
          apply Fronts.plain plainThen
          have known := plain
          rw [isPlain, Bool.and_eq_true] at known
          rw [prototypeOf_of_tableless plain made, procedure_updateProcedure, if_pos ⟨rfl, known.1⟩]

/-! ### Types as sources -/

theorem sourceConstructors_of_composite? {store : Store} {type : ProcedureId}
    {composite : Composite} (found : store.composite? type = some composite) :
    store.sourceConstructors (.procedure type) = composite.bases.constructors := by
  rw [sourceConstructors, bases?_of_composite? found]

theorem sourceConstructors_of_isPlain {store : Store} {reference : ProcedureId}
    (plain : store.isPlain reference = true) :
    store.sourceConstructors (.procedure reference) = [reference] := by
  rw [sourceConstructors, bases?_of_isPlain plain]

theorem sourcePrototypes_of_composite? {store : Store} {type : ProcedureId}
    {composite : Composite} (found : store.composite? type = some composite) :
    sourcePrototypes (.procedure type) store = (composite.bases.prototypes, store) := by
  rw [sourcePrototypes, bases?_of_composite? found]

/-! ### Lists of sources -/

def Settled (store : Store) (sources : List Value) : Prop :=
  ∀ source ∈ sources, (sourcePrototypes source store).2 = store

private theorem allPrototypes_of_settled {store : Store} :
    ∀ {sources : List Value}, store.Settled sources →
      allPrototypes sources store =
        (sources.flatMap fun source => (sourcePrototypes source store).1, store)
  | [], _ => rfl
  | source :: sources, settled => by
      have first := settled source (List.mem_cons_self ..)
      have rest := allPrototypes_of_settled fun other member =>
        settled other (List.mem_cons_of_mem _ member)
      rw [allPrototypes, List.flatMap_cons]
      simp only [first, rest]

theorem prototypes_of_settled {store : Store} {sources : List Value}
    (settled : store.Settled sources) :
    prototypes sources store =
      (FirstSeen.ofList (sources.flatMap fun source => (sourcePrototypes source store).1),
        store) := by
  rw [prototypes, allPrototypes_of_settled settled]

def AllTypes (store : Store) (sources : List Value) : Prop :=
  ∀ source ∈ sources, ∃ type composite, source = .procedure type ∧
    store.composite? type = some composite

theorem AllTypes.settled {store : Store} {sources : List Value}
    (types : store.AllTypes sources) : store.Settled sources := by
  intro source member
  rcases types source member with ⟨type, composite, rfl, found⟩
  rw [sourcePrototypes_of_composite? found]

theorem prototypes_of_types {store : Store} {sources : List Value}
    (types : store.AllTypes sources) :
    prototypes sources store =
      (FirstSeen.ofList (sources.flatMap fun source => (sourcePrototypes source store).1),
        store) :=
  prototypes_of_settled types.settled

theorem prototypes_of_type {store : Store} {type : ProcedureId} {composite : Composite}
    (found : store.composite? type = some composite) :
    prototypes [.procedure type] store =
      (FirstSeen.ofList composite.bases.prototypes, store) := by
  rw [prototypes, allPrototypes, sourcePrototypes_of_composite? found]
  simp [allPrototypes]

end TraitComposition.Store
