import TraitComposition.Member
import TraitComposition.Proofs.Action.Running
import TraitComposition.Proofs.Store.Additions

/-!
Descriptors as objects, and back. Encoding makes a new object that delegates to nothing and
owns the fields of the descriptor; decoding such an object runs no getter and answers with the
descriptor, whatever its shape and flags are.
-/
namespace TraitComposition

namespace Store

structure Records (store : Store) (object : ObjectId) (fields : List (String × Value)) : Prop where
  alone : store.parent object = none
  own : ∀ key, store.ownDescriptor? object key = (fields.lookup key).map Descriptor.ofValue

theorem Records.lookup_eq {store : Store} {object : ObjectId} {fields : List (String × Value)}
    (records : store.Records object fields) (key : String) :
    store.lookup object key = (fields.lookup key).map fun value => (object, .ofValue value) := by
  have levels : store.ancestry object = [object] := by
    rw [ancestry, ancestryWithin, records.alone]
  rw [lookup, levels, List.findSome?_singleton, records.own, Option.map_map]
  rfl

theorem Records.dataValue?_eq {store : Store} {object : ObjectId} {fields : List (String × Value)}
    (records : store.Records object fields) (key : String) :
    store.dataValue? object key = fields.lookup key := by
  rw [dataValue?, descriptor?, records.lookup_eq]
  cases fields.lookup key <;> rfl

private theorem Records.isData {store : Store} {object : ObjectId} {fields : List (String × Value)}
    (records : store.Records object fields) (key : String) (found : Descriptor)
    (resolved : store.descriptor? object key = some found) : found.isData = true := by
  rw [descriptor?, records.lookup_eq, Option.map_map] at resolved
  rcases Option.map_eq_some_iff.mp resolved with ⟨value, _, rfl⟩
  rfl

private theorem parent_insertAll (object other : ObjectId) (fields : List (String × Value))
    (store : Store) : (store.insertAll object fields).parent other = store.parent other := by
  induction fields generalizing store with
  | nil => rfl
  | cons field fields induction =>
      rw [insertAll, List.foldl_cons, ← insertAll, induction]
      exact parent_updateMembers _ _ _ _

private theorem members_insertAll_other {object other : ObjectId} (different : other ≠ object)
    (fields : List (String × Value)) (store : Store) :
    (store.insertAll object fields).members other = store.members other := by
  induction fields generalizing store with
  | nil => rfl
  | cons field fields induction =>
      rw [insertAll, List.foldl_cons, ← insertAll, induction]
      exact members_updateMembers_other _ _ different

private theorem objects_size_insertAll (object : ObjectId) (fields : List (String × Value))
    (store : Store) : (store.insertAll object fields).objects.size = store.objects.size := by
  induction fields generalizing store with
  | nil => rfl
  | cons field fields induction =>
      rw [insertAll, List.foldl_cons, ← insertAll, induction]
      exact objects_size_updateMembers ..

theorem ownDescriptor?_insertAll {object : ObjectId} {fields : List (String × Value)}
    {store : Store} (known : store.hasObject object = true)
    (unique : (fields.map Prod.fst).Nodup) (key : String) :
    (store.insertAll object fields).ownDescriptor? object key =
      ((fields.lookup key).map Descriptor.ofValue).or (store.ownDescriptor? object key) := by
  induction fields generalizing store with
  | nil => rfl
  | cons field fields induction =>
      rcases field with ⟨first, value⟩
      rw [List.map_cons, List.nodup_cons] at unique
      have there : (store.insert object first value).hasObject object = true := by
        simpa [insert, storeMember] using known
      rw [insertAll, List.foldl_cons, ← insertAll, induction there unique.2, List.lookup_cons]
      by_cases same : key = first
      · subst key
        have missing : fields.lookup first = none := by
          rw [List.lookup_eq_none_iff]
          intro field member
          rw [bne_iff_ne]
          rintro rfl
          exact unique.1 (List.mem_map.mpr ⟨field, member, rfl⟩)
        rw [missing, beq_self_eq_true]
        exact ownDescriptor?_storeMember_same _ _ _ _ known
      · rw [beq_false_of_ne same]
        exact congrArg _ (ownDescriptor?_storeMember_other store _ fun both => same both.2)

theorem encode_eq (fields : List (String × Value)) (store : Store) :
    encode fields store =
      (store.nextObject, (store.createObject none).2.insertAll store.nextObject fields) := rfl

theorem nextObject_encode (fields : List (String × Value)) (store : Store) :
    (encode fields store).2.nextObject = ⟨store.objects.size + 1⟩ := by
  rw [encode_eq, nextObject, objects_size_insertAll, objects_size_createObject]

theorem parent_encode (fields : List (String × Value)) (store : Store) :
    (encode fields store).2.parent store.nextObject = none := by
  rw [encode_eq, parent_insertAll, parent, nextObject, object_createObject_self]
  rfl

theorem members_encode_other {object : ObjectId} {store : Store}
    (different : object ≠ store.nextObject) (fields : List (String × Value)) :
    (encode fields store).2.members object = store.members object := by
  rw [encode_eq, members_insertAll_other different, members_createObject]

theorem records_encode {fields : List (String × Value)} (unique : (fields.map Prod.fst).Nodup)
    (store : Store) : (encode fields store).2.Records (encode fields store).1 fields := by
  have empty : (store.createObject none).2.object store.nextObject = {} :=
    object_createObject_self store none
  rw [encode_eq]
  constructor
  · rw [parent_insertAll, parent, empty]
  · intro key
    have missing : (store.createObject none).2.ownDescriptor? store.nextObject key = none := by
      rw [ownDescriptor?, members, empty]
      exact MemberTable.find?_empty key
    have there : (store.createObject none).2.hasObject store.nextObject = true :=
      hasObject_createObject_self store none
    rw [ownDescriptor?_insertAll there unique, missing, Option.or_none]

/-! What else there is stays as it was. -/

private theorem insertAll_eq (object : ObjectId) (fields : List (String × Value)) (store : Store) :
    ∃ objects, store.insertAll object fields = { store with objects := objects } := by
  induction fields generalizing store with
  | nil => exact ⟨store.objects, rfl⟩
  | cons field fields induction =>
      rcases induction (store.insert object field.1 field.2) with ⟨objects, equal⟩
      exact ⟨objects, equal⟩

theorem exists_encode_eq (fields : List (String × Value)) (store : Store) :
    ∃ objects, (encode fields store).2 = { store with objects := objects } := by
  rcases insertAll_eq store.nextObject fields (store.createObject none).2 with ⟨objects, equal⟩
  exact ⟨objects, equal⟩

private theorem ChangesOnly.of_insertAll (object : ObjectId) :
    ∀ (fields : List (String × Value)) (store : Store),
      ChangesOnly object store (store.insertAll object fields)
  | [], store => .refl object store
  | field :: fields, store =>
      (of_storeMember store object field.1 (.ofValue field.2)).trans
        (of_insertAll object fields _)

theorem ChangesOnly.of_encode (fields : List (String × Value)) (store : Store)
    (target : ObjectId) : ChangesOnly target store (encode fields store).2 :=
  have filled := of_insertAll store.nextObject fields (store.createObject none).2
  ((of_createObject store none store.nextObject).trans filled).of_new
    (hasObject_nextObject_eq_false store) target

theorem hasObject_encode (fields : List (String × Value)) (store : Store) :
    (encode fields store).2.hasObject store.nextObject = true := by
  have filled := ChangesOnly.of_insertAll store.nextObject fields (store.createObject none).2
  exact (filled.extends_.object _ (hasObject_createObject_self store none)).1

theorem OnlyAdds.of_encode (fields : List (String × Value)) (store : Store) :
    store.OnlyAdds (encode fields store).2 where
  toChangesOnly := .of_encode fields store store.nextObject
  journal := by
    rcases exists_encode_eq fields store with ⟨objects, equal⟩
    rw [equal]

end Store

namespace Descriptor

variable {σ : Type} (meaning : Meaning σ) {object : ObjectId} {fields : List (String × Value)}
  {world : World σ}

theorem nodup_keys_fields (descriptor : Descriptor) :
    (descriptor.fields.map Prod.fst).Nodup := by
  rcases descriptor with ⟨value | ⟨getter, setter⟩, enumerable, configurable⟩
  all_goals simp [fields]

/-! Decoding fields that are plain members, own or inherited, runs nothing: it only depends on the
values that the object resolves. -/

def fieldKeys : List String :=
  ["value", "writable", "get", "set", "enumerable", "configurable"]

def procedureField (member key : String) :
    Option Value → Except Fault (Option (Option ProcedureId))
  | none => .ok none
  | some .undefined => .ok (some none)
  | some (.procedure procedure) => .ok (some (some procedure))
  | some other => .error <| .invalidDescriptor member <|
      "`" ++ key ++ "` must be a function, found " ++ other.typeName

def ofFields (member : String) (given : String → Option Value) : Except Fault Descriptor := do
  let getter ← procedureField member "get" (given "get")
  let setter ← procedureField member "set" (given "set")
  let shape := shapeOfFields member (given "value") ((given "writable").map Value.isTruthy) getter
    setter
  shape.map fun shape =>
    ⟨shape, ((given "enumerable").map Value.isTruthy).getD false,
      ((given "configurable").map Value.isTruthy).getD false⟩

section Plain

variable {key : String}
  (plain : ∀ found, world.store.descriptor? object key = some found → found.isData = true)

include plain

private theorem run_readField :
    (readField meaning object key).run world =
      (.ok (world.store.dataValue? object key), world) := by
  rw [readField, Action.run_getStore_bind, Store.has, Store.dataValue?, Store.descriptor?]
  cases found : world.store.lookup object key with
  | none => rfl
  | some resolved =>
      have resolves : world.store.descriptor? object key = some resolved.2 := by
        rw [Store.descriptor?, found, Option.map_some]
      rcases isData_iff.mp (plain _ resolves) with ⟨value, valued⟩
      have read : (Member.read meaning object key).run world = (.ok value, world) := by
        rcases shape : resolved.2.shape with ⟨held, writable⟩ | ⟨getter, setter⟩
        · rw [value?, shape] at valued
          obtain rfl := Option.some.inj valued
          rw [Member.read, Action.run_getStore_bind, resolves, Option.map_some, shape]
          rfl
        · rw [value?, shape] at valued
          cases valued
      rw [Option.map_some, Option.bind_some, valued]
      exact Action.run_bind_of_ok _ read

private theorem run_readFlag :
    (readFlag meaning object key).run world =
      (.ok ((world.store.dataValue? object key).map Value.isTruthy), world) := by
  rw [readFlag, Action.run_bind_of_ok _ (run_readField meaning plain)]
  rfl

private theorem run_readProcedure (member : String) :
    (readProcedure meaning member object key).run world =
      (procedureField member key (world.store.dataValue? object key), world) := by
  rw [readProcedure, Action.run_bind_of_ok _ (run_readField meaning plain)]
  cases world.store.dataValue? object key with
  | none => rfl
  | some value => cases value <;> rfl

end Plain

theorem run_decode_of_plain (member : String)
    (plain : ∀ key ∈ fieldKeys, ∀ found, world.store.descriptor? object key = some found →
      found.isData = true) :
    (decode meaning member object).run world =
      (ofFields member (world.store.dataValue? object), world) := by
  rw [fieldKeys] at plain
  simp only [List.forall_mem_cons] at plain
  rcases plain with ⟨value, writable, getter, setter, enumerable, configurable, _⟩
  rw [decode, Action.run_bind_of_ok _ (run_readField meaning value),
    Action.run_bind_of_ok _ (run_readFlag meaning writable), Action.run_bind,
    run_readProcedure meaning getter, ofFields]
  cases procedureField member "get" (world.store.dataValue? object "get") with
  | error fault => rfl
  | ok given =>
      dsimp only
      rw [Action.run_bind, run_readProcedure meaning setter]
      cases procedureField member "set" (world.store.dataValue? object "set") with
      | error fault => rfl
      | ok givenToo =>
          dsimp only
          rw [Action.run_bind, Action.run_ofExcept]
          change _ = ((shapeOfFields member _ _ given givenToo).map _, world)
          cases shapeOfFields member (world.store.dataValue? object "value")
            ((world.store.dataValue? object "writable").map Value.isTruthy) given givenToo with
          | error fault => rfl
          | ok shape =>
              dsimp only
              rw [Action.run_bind_of_ok _ (run_readFlag meaning enumerable),
                Action.run_bind_of_ok _ (run_readFlag meaning configurable)]
              rfl

theorem run_decode_of_records (writable : Option Bool)
    (getter setter : Option (Option ProcedureId)) (enumerable configurable : Option Bool)
    (member : String) (records : world.store.Records object fields)
    (writes : fields.lookup "writable" = writable.map .boolean)
    (gets : fields.lookup "get" = getter.map .ofProcedure?)
    (sets : fields.lookup "set" = setter.map .ofProcedure?)
    (enumerates : fields.lookup "enumerable" = enumerable.map .boolean)
    (configures : fields.lookup "configurable" = configurable.map .boolean) :
    (decode meaning member object).run world =
      ((shapeOfFields member (fields.lookup "value") writable getter setter).map fun shape =>
        ⟨shape, enumerable.getD false, configurable.getD false⟩, world) := by
  have flag {key : String} {given : Option Bool} (held : fields.lookup key = given.map .boolean) :
      (fields.lookup key).map Value.isTruthy = given := by
    rw [held]
    cases given <;> rfl
  have procedure {key : String} {given : Option (Option ProcedureId)}
      (held : fields.lookup key = given.map .ofProcedure?) :
      procedureField member key (fields.lookup key) = .ok given := by
    rw [held]
    rcases given with _ | _ | given <;> rfl
  rw [run_decode_of_plain meaning member fun key _ => records.isData key,
    funext records.dataValue?_eq, ofFields, procedure gets, procedure sets, flag writes,
    flag enumerates, flag configures]
  rfl

theorem run_decode {descriptor : Descriptor} (member : String)
    (records : world.store.Records object descriptor.fields) :
    (decode meaning member object).run world = (.ok descriptor, world) := by
  rcases descriptor with ⟨⟨value, writable⟩ | ⟨getter, setter⟩, enumerable, configurable⟩
  · exact run_decode_of_records meaning (some writable) none none (some enumerable)
      (some configurable) member records rfl rfl rfl rfl rfl
  · exact run_decode_of_records meaning none (some getter) (some setter) (some enumerable)
      (some configurable) member records rfl rfl rfl rfl rfl

theorem run_decode_encode (descriptor : Descriptor) (member : String) (world : World σ) :
    (descriptor.encode >>= decode meaning member).run world =
      (.ok descriptor,
        { world with store := (Store.encode descriptor.fields world.store).2 }) := by
  rw [encode, Action.run_edit_bind]
  exact run_decode meaning member (Store.records_encode descriptor.nodup_keys_fields world.store)

end Descriptor

end TraitComposition
