import TraitComposition.Proofs.Store.Enumeration
import TraitComposition.Proofs.Store.Types

/-!
Changes of one object. Whatever is added to a store meanwhile, an object resolves and
enumerates what it did before, unless it delegates to the one that changed.
-/
namespace TraitComposition.Store

/-- Whether nothing that was there before has changed but members of one object. Types
keep their definers, and what was made meanwhile delegates to older objects. -/
structure ChangesOnly (target : ObjectId) (before after : Store) : Prop where
  extends_ : before.Extends after
  members : ∀ object, before.hasObject object = true → object ≠ target →
    after.members object = before.members object
  types : ∀ type composite, before.composite? type = some composite →
    after.composite? type = some composite
  rooted : before.Rooted → after.Rooted

theorem Extends.composite?_of_composites_eq {before after : Store}
    (extends_ : before.Extends after) (same : after.composites = before.composites)
    {type : ProcedureId} {composite : Composite}
    (found : before.composite? type = some composite) :
    after.composite? type = some composite := by
  rcases body_of_composite? found with ⟨reference, body, known⟩
  rw [Store.composite?, extends_.body (hasProcedure_of_composite? found), body]
  simp only [Store.composite, same]
  exact known

namespace ChangesOnly

variable {target : ObjectId} {first second third : Store}

theorem refl (target : ObjectId) (store : Store) : ChangesOnly target store store where
  extends_ := .refl store
  members _ _ _ := rfl
  types _ _ found := found
  rooted rooted := rooted

theorem trans (start : ChangesOnly target first second) (rest : ChangesOnly target second third) :
    ChangesOnly target first third where
  extends_ := start.extends_.trans rest.extends_
  members object known different := by
    rw [rest.members object (start.extends_.object object known).1 different,
      start.members object known different]
  types type composite found := rest.types type composite (start.types type composite found)
  rooted rooted := rest.rooted (start.rooted rooted)

theorem of_new (changes : ChangesOnly target first second) (new : first.hasObject target = false)
    (other : ObjectId) : ChangesOnly other first second :=
  { changes with
    members := fun object known _ => changes.members object known fun equal => by
      rw [← equal, known] at new
      cases new }

theorem of_updateMembers (store : Store) (target : ObjectId) (update : MemberTable → MemberTable) :
    ChangesOnly target store (store.updateMembers target update) where
  extends_ := .of_updateMembers store target update
  members _ _ different := members_updateMembers_other _ _ different
  types _ _ found := found
  rooted rooted := rooted.of_parent_eq (parent_updateMembers _ _ _)

theorem of_storeMember (store : Store) (target : ObjectId) (name : String)
    (descriptor : Descriptor) :
    ChangesOnly target store (store.storeMember target name descriptor) :=
  of_updateMembers store target (·.insert name descriptor)

theorem of_createObject (store : Store) (parent : Option ObjectId) (target : ObjectId) :
    ChangesOnly target store (store.createObject parent).2 where
  extends_ := .of_createObject store parent
  members object known _ := by
    rw [Store.members, object_createObject_of_hasObject parent known, ← Store.members]
  types _ _ found := found
  rooted rooted := rooted.createObject parent

theorem of_objects_eq {before after : Store} (extends_ : before.Extends after)
    (same : after.objects = before.objects)
    (types : ∀ type composite, before.composite? type = some composite →
      after.composite? type = some composite) (target : ObjectId) :
    ChangesOnly target before after where
  extends_ := extends_
  members object _ _ := by rw [Store.members, Store.members, Store.object, Store.object, same]
  types := types
  rooted rooted := rooted.of_parent_eq fun object => by
    rw [Store.parent, Store.parent, Store.object, Store.object, same]

theorem of_addProcedure (store : Store) (procedure : Procedure) (target : ObjectId) :
    ChangesOnly target store (store.addProcedure procedure).2 :=
  of_objects_eq (.of_addProcedure store procedure) rfl
    (fun _ _ found =>
      (Extends.of_addProcedure store procedure).composite?_of_composites_eq rfl found)
    target

theorem of_addLayer (store : Store) (layer : Layer) (target : ObjectId) :
    ChangesOnly target store (store.addLayer layer).2 :=
  of_objects_eq (.of_addLayer store layer) rfl (fun _ _ found => found) target

theorem of_addComposite (store : Store) (prototype : ObjectId) (bases : Bases)
    (composer : Composer) (target : ObjectId) :
    ChangesOnly target store (store.addComposite prototype bases composer).2 := by
  have extends_ := Extends.of_addComposite store prototype bases composer
  refine of_objects_eq extends_ rfl (fun type composite found => ?_) target
  rcases body_of_composite? found with ⟨reference, body, known⟩
  have inside : reference.index < store.composites.size := (Array.getElem?_eq_some_iff.mp known).1
  rw [composite?, extends_.body (hasProcedure_of_composite? found), body]
  simp only [Store.composite, addComposite, composites_addProcedure]
  rw [Array.getElem?_push_lt inside, ← Array.getElem?_eq_getElem inside]
  exact known

theorem of_prototypeOf (store : Store) (procedure : ProcedureId) (target : ObjectId) :
    ChangesOnly target store (store.prototypeOf procedure).2 := by
  rcases store.prototypeOf_cases procedure with unchanged | ⟨tableless, made⟩
  · rw [unchanged]
    exact .refl target store
  · have tabled : (store.createObject none).2.Extends
        ((store.createObject none).2.updateProcedure procedure fun procedure =>
          { procedure with table := some ⟨store.objects.size⟩ }) :=
      .of_updateProcedure ⟨store.objects.size⟩ tableless
    rw [made]
    exact (of_createObject store none target).trans (of_objects_eq tabled rfl
      (fun _ _ found => tabled.composite?_of_composites_eq rfl found) target)

end ChangesOnly

structure Fills (target : ObjectId) (before after : Store) : Prop
    extends ChangesOnly target before after where
  layers : after.layers = before.layers
  procedures : ∀ reference, before.hasProcedure reference = true →
    after.procedure reference = before.procedure reference

namespace Fills

variable {target : ObjectId} {first second third : Store}

theorem refl (target : ObjectId) (store : Store) : Fills target store store where
  toChangesOnly := .refl target store
  layers := rfl
  procedures _ _ := rfl

theorem trans (start : Fills target first second) (rest : Fills target second third) :
    Fills target first third where
  toChangesOnly := start.toChangesOnly.trans rest.toChangesOnly
  layers := rest.layers.trans start.layers
  procedures reference known := by
    rw [rest.procedures reference (start.extends_.procedure reference known).1,
      start.procedures reference known]

theorem of_storeMember (store : Store) (target : ObjectId) (name : String)
    (descriptor : Descriptor) : Fills target store (store.storeMember target name descriptor) where
  toChangesOnly := .of_storeMember store target name descriptor
  layers := rfl
  procedures _ _ := rfl

end Fills

section Reading

variable {target : ObjectId} {before after : Store} (changes : ChangesOnly target before after)
  (rooted : before.Rooted) {object : ObjectId} (known : before.hasObject object = true)
  (apart : target ∉ before.ancestry object)

include changes rooted known

theorem ChangesOnly.ancestry_eq : after.ancestry object = before.ancestry object :=
  changes.extends_.ancestry_eq rooted (changes.rooted rooted) known

include apart

theorem ChangesOnly.members_of_mem_ancestry {level : ObjectId}
    (member : level ∈ before.ancestry object) : after.members level = before.members level :=
  changes.members level (hasObject_of_mem_ancestry rooted known member) fun equal =>
    apart (equal ▸ member)

theorem ChangesOnly.lookup_eq (name : String) :
    after.lookup object name = before.lookup object name := by
  apply lookup_congr (changes.ancestry_eq rooted known)
  intro level member
  rw [ownDescriptor?, ownDescriptor?,
    changes.members_of_mem_ancestry rooted known apart member]

theorem ChangesOnly.descriptor?_eq (name : String) :
    after.descriptor? object name = before.descriptor? object name := by
  rw [descriptor?, descriptor?, changes.lookup_eq rooted known apart]

theorem ChangesOnly.dataValue?_eq (name : String) :
    after.dataValue? object name = before.dataValue? object name := by
  rw [dataValue?, dataValue?, changes.descriptor?_eq rooted known apart]

theorem ChangesOnly.enumerableNames_eq :
    after.enumerableNames object = before.enumerableNames object :=
  enumerableNames_congr (changes.ancestry_eq rooted known)
    fun _ member => changes.members_of_mem_ancestry rooted known apart member

end Reading

theorem not_mem_ancestry_of_younger {store : Store} (rooted : store.Rooted)
    {target object : ObjectId} (younger : object.index < target.index) :
    target ∉ store.ancestry object := by
  intro member
  have older := index_le_of_mem_ancestry rooted member
  omega

theorem Houses.later {before after : Store} {target : ObjectId} {type : ProcedureId}
    {composite : Composite} (houses : before.Houses type composite)
    (changes : ChangesOnly target before after) : after.Houses type composite where
  found := changes.types type composite houses.found
  own := houses.own
  known table member := (changes.extends_.object table (houses.known table member)).1

theorem AllTypes.later {before after : Store} {target : ObjectId} {sources : List Value}
    (types : before.AllTypes sources) (changes : ChangesOnly target before after) :
    after.AllTypes sources := by
  intro source member
  rcases types source member with ⟨type, composite, equal, found⟩
  exact ⟨type, composite, equal, changes.types type composite found⟩

/-! ### Chains -/

theorem chainHolds_iff {store : Store} {chain : List ObjectId} {name : String}
    {method : ProcedureId} :
    store.chainHolds chain name (.procedure method) = true ↔
      ∃ table ∈ chain, store.dataValue? table name = some (.procedure method) := by
  simp only [chainHolds, List.any_eq_true, Option.any_eq_true, Value.same_procedure_iff]
  constructor
  · rintro ⟨table, member, value, found, rfl⟩
    exact ⟨table, member, found⟩
  · rintro ⟨table, member, found⟩
    exact ⟨table, member, _, found, rfl⟩

theorem chainHolds_singleton {store : Store} {table : ObjectId} {name : String}
    {method : ProcedureId} :
    store.chainHolds [table] name (.procedure method) = true ↔
      store.dataValue? table name = some (.procedure method) := by
  simp [chainHolds_iff]

theorem inherits_iff {store : Store} {object : ObjectId} {name : String}
    {method : ProcedureId} :
    store.inherits object name (.procedure method) = true ↔
      ∃ level ∈ store.ancestors object,
        (store.ownDescriptor? level name).bind Descriptor.value? = some (.procedure method) := by
  simp only [inherits, List.any_eq_true, Option.any_eq_true, Value.same_procedure_iff]
  constructor
  · rintro ⟨level, member, value, found, rfl⟩
    exact ⟨level, member, found⟩
  · rintro ⟨level, member, found⟩
    exact ⟨level, member, _, found, rfl⟩

theorem chainHolds_congr {before after : Store} {chain : List ObjectId} {name : String}
    (same : ∀ table ∈ chain, after.dataValue? table name = before.dataValue? table name)
    (method : Value) :
    after.chainHolds chain name method = before.chainHolds chain name method := by
  rw [Bool.eq_iff_iff, chainHolds, chainHolds, List.any_eq_true, List.any_eq_true]
  constructor
  · rintro ⟨table, member, holds⟩
    exact ⟨table, member, by rwa [← same table member]⟩
  · rintro ⟨table, member, holds⟩
    exact ⟨table, member, by rwa [same table member]⟩

end TraitComposition.Store
