import TraitComposition.Store.Definition

/-!
Reading a store after writing to it. Each way of writing comes with what it leaves
alone and with what it changes, so that a write is opened here and nowhere else.
-/
namespace TraitComposition.Store

def hasProcedure (store : Store) (reference : ProcedureId) : Bool :=
  reference.index < store.procedures.size

theorem hasObject_iff {store : Store} {reference : ObjectId} :
    store.hasObject reference = true ↔ reference.index < store.objects.size := by
  simp [hasObject]

theorem hasProcedure_iff {store : Store} {reference : ProcedureId} :
    store.hasProcedure reference = true ↔ reference.index < store.procedures.size := by
  simp [hasProcedure]

theorem object_of_not_hasObject {store : Store} {reference : ObjectId}
    (absent : store.hasObject reference = false) : store.object reference = {} := by
  have beyond : store.objects.size ≤ reference.index := by
    simpa [hasObject] using absent
  simp [object, Array.getD_eq_getD_getElem?, Array.getElem?_eq_none beyond]

theorem hasObject_of_parent {store : Store} {reference parent : ObjectId}
    (delegates : store.parent reference = some parent) : store.hasObject reference = true := by
  cases known : store.hasObject reference with
  | true => rfl
  | false =>
      rw [Store.parent, object_of_not_hasObject known] at delegates
      cases delegates

/-! ### New objects -/

section NewObject

variable (store : Store) (parent : Option ObjectId)

@[simp] theorem createObject_fst :
    (store.createObject parent).1 = ⟨store.objects.size⟩ := rfl

@[simp] theorem objects_size_createObject :
    (store.createObject parent).2.objects.size = store.objects.size + 1 := by
  simp [createObject, addObject]

theorem object_createObject_self :
    (store.createObject parent).2.object ⟨store.objects.size⟩ =
      { parent := parent.filter store.hasObject } := by
  simp [createObject, addObject, object, Array.getD_eq_getD_getElem?]

variable {store} in
theorem object_createObject_of_hasObject {reference : ObjectId}
    (known : store.hasObject reference = true) :
    (store.createObject parent).2.object reference = store.object reference := by
  have inside := hasObject_iff.mp known
  simp only [createObject, addObject, object, Array.getD_eq_getD_getElem?]
  rw [Array.getElem?_push_lt inside, Array.getElem?_eq_getElem inside]

variable {store} in
theorem hasObject_createObject {reference : ObjectId}
    (known : store.hasObject reference = true) :
    (store.createObject parent).2.hasObject reference = true := by
  rw [hasObject_iff] at known ⊢
  rw [objects_size_createObject]
  omega

theorem hasObject_createObject_self :
    (store.createObject parent).2.hasObject ⟨store.objects.size⟩ = true := by
  simp [hasObject]

@[simp] theorem procedures_createObject :
    (store.createObject parent).2.procedures = store.procedures := rfl

@[simp] theorem layers_createObject :
    (store.createObject parent).2.layers = store.layers := rfl

@[simp] theorem composites_createObject :
    (store.createObject parent).2.composites = store.composites := rfl

@[simp] theorem journal_createObject :
    (store.createObject parent).2.journal = store.journal := rfl

end NewObject

/-! ### Members -/

section Members

variable (store : Store) (target : ObjectId) (update : MemberTable → MemberTable)

@[simp] theorem objects_size_updateMembers :
    (store.updateMembers target update).objects.size = store.objects.size := by
  simp [updateMembers]

@[simp] theorem hasObject_updateMembers (reference : ObjectId) :
    (store.updateMembers target update).hasObject reference = store.hasObject reference := by
  simp [hasObject]

theorem object_updateMembers (reference : ObjectId) :
    (store.updateMembers target update).object reference =
      if target = reference ∧ store.hasObject reference then
        { store.object reference with members := update (store.members reference) }
      else store.object reference := by
  simp only [updateMembers, object, members, Array.getD_eq_getD_getElem?, Array.getElem?_modify]
  by_cases same : target = reference
  · subst target
    cases inside : store.objects[reference.index]? with
    | none =>
        have absent : store.hasObject reference = false := by
          simpa [hasObject] using inside
        simp [absent]
    | some found =>
        have known : store.hasObject reference = true := by
          rw [hasObject_iff]
          exact (Array.getElem?_eq_some_iff.mp inside).1
        simp [known]
  · have different : target.index ≠ reference.index := by
      intro equal
      cases target
      cases reference
      exact same (congrArg ObjectId.mk equal)
    simp [same, different]

@[simp] theorem parent_updateMembers (reference : ObjectId) :
    (store.updateMembers target update).parent reference = store.parent reference := by
  unfold parent
  rw [object_updateMembers]
  split <;> rfl

theorem members_updateMembers_same (known : store.hasObject target = true) :
    (store.updateMembers target update).members target = update (store.members target) := by
  rw [members, object_updateMembers, if_pos ⟨rfl, known⟩]

variable {target} in
theorem members_updateMembers_other {reference : ObjectId} (different : reference ≠ target) :
    (store.updateMembers target update).members reference = store.members reference := by
  rw [members, object_updateMembers, if_neg fun both => different both.1.symm, ← members]

@[simp] theorem procedures_updateMembers :
    (store.updateMembers target update).procedures = store.procedures := rfl

@[simp] theorem layers_updateMembers :
    (store.updateMembers target update).layers = store.layers := rfl

@[simp] theorem composites_updateMembers :
    (store.updateMembers target update).composites = store.composites := rfl

@[simp] theorem journal_updateMembers :
    (store.updateMembers target update).journal = store.journal := rfl

theorem updateMembers_updateMembers (again : MemberTable → MemberTable) :
    (store.updateMembers target update).updateMembers target again =
      store.updateMembers target (again ∘ update) := by
  have same : (store.updateMembers target update |>.updateMembers target again).objects =
      (store.updateMembers target (again ∘ update)).objects := by
    apply Array.ext_getElem?
    intro index
    simp only [updateMembers, Array.getElem?_modify]
    split
    · rw [Option.map_map]
      rfl
    · rfl
  exact congrArg (fun objects => ({ store with objects := objects } : Store)) same

theorem updateMembers_eq_self (same : update (store.members target) = store.members target) :
    store.updateMembers target update = store := by
  have objects : (store.objects.modify target.index fun object =>
      { object with members := update object.members }) = store.objects := by
    apply Array.ext_getElem?
    intro index
    rw [Array.getElem?_modify]
    split
    · next equal =>
      rw [members, object, Array.getD_eq_getD_getElem?, equal] at same
      cases inside : store.objects[index]? with
      | none => rfl
      | some found =>
          rw [inside, Option.getD_some] at same
          rw [Option.map_some, same]
    · rfl
  rw [updateMembers, objects]

theorem updateMembers_members :
    (store.updateMembers target fun _ => store.members target) = store :=
  updateMembers_eq_self store target _ rfl

end Members

section Stored

variable (store : Store) (target : ObjectId) (name : String) (descriptor : Descriptor)

theorem ownDescriptor?_storeMember_same (known : store.hasObject target = true) :
    (store.storeMember target name descriptor).ownDescriptor? target name =
      some descriptor := by
  rw [ownDescriptor?, storeMember, members_updateMembers_same _ _ _ known,
    MemberTable.find?_insert_same]

variable {target name} in
theorem ownDescriptor?_storeMember_other {reference : ObjectId} {other : String}
    (different : ¬(reference = target ∧ other = name)) :
    (store.storeMember target name descriptor).ownDescriptor? reference other =
      store.ownDescriptor? reference other := by
  unfold ownDescriptor? storeMember
  by_cases same : reference = target
  · subst reference
    by_cases known : store.hasObject target = true
    · rw [members_updateMembers_same _ _ _ known]
      exact MemberTable.find?_insert_other _ _ fun equal => different ⟨rfl, equal⟩
    · rw [members, object_updateMembers, if_neg fun both => known both.2, ← members]
  · rw [members_updateMembers_other _ _ same]

variable {store target name descriptor} in
theorem storeMember_of_owned (owned : store.ownDescriptor? target name = some descriptor) :
    store.storeMember target name descriptor = store :=
  updateMembers_eq_self store target _ (MemberTable.insert_of_find? owned)

end Stored

/-! ### Procedures -/

section Procedures

variable (store : Store)

@[simp] theorem addProcedure_fst (procedure : Procedure) :
    (store.addProcedure procedure).1 = ⟨store.procedures.size⟩ := rfl

@[simp] theorem objects_addProcedure (procedure : Procedure) :
    (store.addProcedure procedure).2.objects = store.objects := rfl

@[simp] theorem layers_addProcedure (procedure : Procedure) :
    (store.addProcedure procedure).2.layers = store.layers := rfl

@[simp] theorem composites_addProcedure (procedure : Procedure) :
    (store.addProcedure procedure).2.composites = store.composites := rfl

@[simp] theorem journal_addProcedure (procedure : Procedure) :
    (store.addProcedure procedure).2.journal = store.journal := rfl

theorem hasProcedure_addProcedure_self (procedure : Procedure) :
    (store.addProcedure procedure).2.hasProcedure ⟨store.procedures.size⟩ = true := by
  simp [hasProcedure, addProcedure]

@[simp] theorem procedure_addProcedure_self (procedure : Procedure) :
    (store.addProcedure procedure).2.procedure ⟨store.procedures.size⟩ = procedure := by
  simp [addProcedure, Store.procedure, Array.getD_eq_getD_getElem?]

variable {store} in
theorem hasProcedure_addProcedure {reference : ProcedureId} (procedure : Procedure)
    (known : store.hasProcedure reference = true) :
    (store.addProcedure procedure).2.hasProcedure reference = true := by
  rw [hasProcedure_iff] at known ⊢
  simp only [addProcedure, Array.size_push]
  omega

variable {store} in
theorem procedure_addProcedure_of_hasProcedure {reference : ProcedureId}
    (procedure : Procedure) (known : store.hasProcedure reference = true) :
    (store.addProcedure procedure).2.procedure reference = store.procedure reference := by
  have inside := hasProcedure_iff.mp known
  simp only [addProcedure, Store.procedure, Array.getD_eq_getD_getElem?]
  rw [Array.getElem?_push_lt inside, Array.getElem?_eq_getElem inside]

theorem procedure_addProcedure_cases (procedure : Procedure) (reference : ProcedureId) :
    (store.addProcedure procedure).2.procedure reference = store.procedure reference ∨
      (store.addProcedure procedure).2.procedure reference = procedure := by
  simp only [Store.procedure, addProcedure, Array.getD_eq_getD_getElem?, Array.getElem?_push]
  split
  · exact .inr rfl
  · exact .inl rfl

theorem procedure_updateProcedure (target reference : ProcedureId)
    (update : Procedure → Procedure) :
    (store.updateProcedure target update).procedure reference =
      if target = reference ∧ store.hasProcedure reference then
        update (store.procedure reference)
      else store.procedure reference := by
  simp only [updateProcedure, Store.procedure, Array.getD_eq_getD_getElem?,
    Array.getElem?_modify]
  by_cases same : target = reference
  · subst target
    cases inside : store.procedures[reference.index]? with
    | none =>
        have absent : store.hasProcedure reference = false := by
          simpa [hasProcedure] using inside
        simp [absent]
    | some found =>
        have known : store.hasProcedure reference = true := by
          rw [hasProcedure_iff]
          exact (Array.getElem?_eq_some_iff.mp inside).1
        simp [known]
  · have different : target.index ≠ reference.index := by
      intro equal
      cases target
      cases reference
      exact same (congrArg ProcedureId.mk equal)
    simp [same, different]

@[simp] theorem hasProcedure_updateProcedure (target reference : ProcedureId)
    (update : Procedure → Procedure) :
    (store.updateProcedure target update).hasProcedure reference =
      store.hasProcedure reference := by
  simp [updateProcedure, hasProcedure]

/-- Asking for the table of a procedure either changes nothing or makes an empty one. -/
theorem prototypeOf_cases (reference : ProcedureId) :
    (store.prototypeOf reference).2 = store ∨
      (store.procedure reference).table = none ∧
        store.prototypeOf reference =
          (⟨store.objects.size⟩,
            (store.createObject none).2.updateProcedure reference fun procedure =>
              { procedure with table := some ⟨store.objects.size⟩ }) := by
  unfold prototypeOf
  rcases store.procedure reference with ⟨label, body, hook, mark, table⟩
  cases body <;> cases table <;> first | exact .inl rfl | exact .inr ⟨rfl, rfl⟩

theorem object_prototypeOf (procedure : ProcedureId) (reference : ObjectId) :
    (store.prototypeOf procedure).2.object reference = store.object reference := by
  rcases store.prototypeOf_cases procedure with unchanged | ⟨_, made⟩
  · rw [unchanged]
  · rw [made]
    simp only [updateProcedure, createObject, addObject, object, Array.getD_eq_getD_getElem?,
      Array.getElem?_push, Option.filter_none]
    split
    · next equal => simp [equal]
    · rfl

end Procedures

end TraitComposition.Store
