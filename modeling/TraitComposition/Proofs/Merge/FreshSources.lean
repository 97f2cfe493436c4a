import TraitComposition.Proofs.Merge.Weighing
import TraitComposition.Proofs.Store.NewTable

/-!
Sources that were made for one composition: a plain constructor that has no table yet,
and a bare table with a single member. The one brings nothing but a new empty table, the
other nothing but its member.
-/
namespace TraitComposition

namespace Store

variable {store : Store}

/-! ### Objects that delegate to nothing -/

private theorem ancestry_of_alone {object : ObjectId} (alone : store.parent object = none) :
    store.ancestry object = [object] := by
  rw [ancestry, ancestryWithin, alone]

theorem lookup_of_alone {object : ObjectId} (alone : store.parent object = none)
    (name : String) :
    store.lookup object name =
      (store.ownDescriptor? object name).map fun descriptor => (object, descriptor) := by
  rw [lookup, ancestry_of_alone alone]
  cases owned : store.ownDescriptor? object name <;> simp [owned]

theorem enumerableNames_of_alone {object : ObjectId} (alone : store.parent object = none) :
    store.enumerableNames object = (store.members object).keys := by
  rw [enumerableNames, ancestry_of_alone alone]
  simp [visibleNames]

/-! ### Constructors and their tables -/

def tabling (store : Store) (procedure : ProcedureId) : Store :=
  (store.prototypeOf procedure).2

structure Tabled (store : Store) (procedure : ProcedureId) (table : ObjectId) : Prop where
  plain : store.isPlain procedure = true
  made : (store.procedure procedure).table = some table
  known : store.hasObject table = true
  alone : store.parent table = none
  empty : store.members table = .empty

namespace Tabled

variable {before after : Store} {procedure : ProcedureId} {table target : ObjectId}

theorem later (tabled : before.Tabled procedure table) (changes : ChangesOnly target before after)
    (different : table ≠ target) : after.Tabled procedure table where
  plain := changes.extends_.isPlain tabled.plain
  made := by
    have known := tabled.plain
    rw [isPlain, Bool.and_eq_true] at known
    rcases changes.extends_.procedure procedure known.1 with ⟨_, _, same, keeps⟩
    rw [same]
    exact keeps table tabled.made
  known := (changes.extends_.object table tabled.known).1
  alone := (changes.extends_.object table tabled.known).2.trans tabled.alone
  empty := (changes.members table tabled.known different).trans tabled.empty

variable (tabled : store.Tabled procedure table)

include tabled

private theorem prototypeOf_eq : store.prototypeOf procedure = (table, store) :=
  prototypeOf_of_table tabled.plain tabled.made

theorem sourcePrototypes_eq :
    sourcePrototypes (.procedure procedure) store = ([table], store) := by
  rw [sourcePrototypes, bases?_of_isPlain tabled.plain, tabled.prototypeOf_eq]

private theorem enumerableNames_eq_nil : store.enumerableNames table = [] := by
  rw [enumerableNames_of_alone tabled.alone, tabled.empty]
  rfl

theorem dataValue?_eq_none (name : String) : store.dataValue? table name = none := by
  rw [dataValue?, descriptor?, lookup_of_alone tabled.alone, ownDescriptor?, tabled.empty]
  simp

end Tabled

section Constructor

variable {constructor : ProcedureId} (plain : store.isPlain constructor = true)
  (tableless : (store.procedure constructor).table = none)

include plain tableless

theorem layers_tabling : (store.tabling constructor).layers = store.layers := by
  rw [tabling, prototypeOf_of_tableless plain tableless]
  rfl

theorem tabled_tabling : (store.tabling constructor).Tabled constructor store.nextObject := by
  have known : (store.createObject none).2.hasProcedure constructor = true := by
    unfold isPlain at plain
    rw [Bool.and_eq_true] at plain
    exact plain.1
  have object : (store.tabling constructor).object store.nextObject = {} := by
    rw [tabling, prototypeOf_of_tableless plain tableless]
    exact object_createObject_self store none
  refine
    { plain := (Extends.of_prototypeOf store constructor).isPlain plain
      made := ?_
      known := ?_
      alone := by rw [parent, object]
      empty := by rw [members, object] }
  · rw [tabling, prototypeOf_of_tableless plain tableless, procedure_updateProcedure,
      if_pos ⟨rfl, known⟩]
    rfl
  · rw [tabling, prototypeOf_of_tableless plain tableless]
    exact hasObject_createObject_self store none

end Constructor

end Store

namespace Merge

variable {σ : Type} (meaning : Meaning σ) (plan : Plan) {world : World σ}

theorem run_mixSource_of_tableless (index : Nat) (held : List Conflict) (world : World σ)
    {constructor : ProcedureId} (plain : world.store.isPlain constructor = true)
    (tableless : (world.store.procedure constructor).table = none) :
    (mixSource meaning plan index (.procedure constructor) held).run world =
      (.ok held, { world with store := world.store.tabling constructor }) := by
  have table : (world.store.prototypeOf constructor).1 = world.store.nextObject := by
    rw [Store.prototypeOf_of_tableless plain tableless]
    rfl
  have tabled := Store.tabled_tabling plain tableless
  have tables : Store.prototypes [.procedure constructor] (world.store.tabling constructor) =
      ([world.store.nextObject], world.store.tabling constructor) := by
    rw [Store.prototypes, Store.allPrototypes, tabled.sourcePrototypes_eq]
    rfl
  rw [mixSource, Action.run_edit_bind, ← Store.tabling, table, Action.run_edit_bind, tables,
    Action.run_getStore_bind, tabled.enumerableNames_eq_nil]
  rfl

theorem run_mixSource_of_single (index : Nat) (held : List Conflict) {table : ObjectId}
    {name : String} (single : world.store.enumerableNames table = [name]) :
    (mixSource meaning plan index (.object table) held).run world =
      (mixMember meaning plan table name held).run world := by
  rw [mixSource, Action.run_getStore_bind, single, List.foldlM_cons]
  simp only [List.foldlM_nil, bind_pure]

theorem mixSources_append (second : List Value) :
    ∀ (index : Nat) (first : List Value) (held : List Conflict),
      mixSources meaning plan index (first ++ second) held =
        mixSources meaning plan index first held >>=
          mixSources meaning plan (index + first.length) second
  | index, [], held => by
      rw [mixSources, pure_bind]
      rfl
  | index, source :: first, held => by
      simp only [List.cons_append, mixSources, bind_assoc]
      congr 1
      funext between
      rw [mixSources_append second (index + 1) first between, List.length_cons,
        Nat.add_right_comm, Nat.add_assoc]

end Merge

end TraitComposition
