import TraitComposition.Decorator
import TraitComposition.Proofs.Merge.FinalTable
import TraitComposition.Proofs.Store.Encoding

/-!
Patches. Installing a patch works out a descriptor as objects: the fields of what the destination
resolves are recorded on a new object, those that the patch gives are merged into it like any bare
table, and the outcome is read back. What comes of it is said here in terms of descriptors.
-/
namespace TraitComposition

variable {σ : Type}

/-! ### What a patch comes to -/

namespace Descriptor

def writable? (descriptor : Descriptor) : Option Bool :=
  match descriptor.shape with
  | .data _ writable => some writable
  | .accessor .. => none

def getterField? (descriptor : Descriptor) : Option (Option ProcedureId) :=
  match descriptor.shape with
  | .accessor getter _ => some getter
  | .data .. => none

def setterField? (descriptor : Descriptor) : Option (Option ProcedureId) :=
  match descriptor.shape with
  | .accessor _ setter => some setter
  | .data .. => none

end Descriptor

def Fault.mixedFields (member : String) : Fault :=
  .invalidDescriptor member "cannot both specify accessors and a value or writable attribute"

namespace Patch

variable (patch : Patch) (inherited : Option Descriptor)

def makesAccessor : Bool :=
  patch.getter.isSome || patch.setter.isSome || inherited.any Descriptor.isAccessor

/-- Whether there are procedures, and also a value or a word on whether it can be assigned. -/
def mixes : Bool :=
  patch.makesAccessor inherited &&
    (patch.value.isSome || patch.writable.isSome || inherited.any Descriptor.isData)

/-- The descriptor with the fields that a patch gives. The others are those of the descriptor that
is patched; if there is none, values are undefined, procedures missing and nothing is allowed. -/
def laidOver : Descriptor where
  shape :=
    if patch.makesAccessor inherited then
      .accessor (patch.getter.or (inherited.bind Descriptor.getter?))
        (patch.setter.or (inherited.bind Descriptor.setter?))
    else
      .data ((patch.value.or (inherited.bind Descriptor.value?)).getD .undefined)
        ((patch.writable.or (inherited.bind Descriptor.writable?)).getD false)
  enumerable := (patch.enumerable.or (inherited.map Descriptor.enumerable)).getD false
  configurable := (patch.configurable.or (inherited.map Descriptor.configurable)).getD false

theorem shapeOfFields_laidOver (member : String) :
    Descriptor.shapeOfFields member (patch.value.or (inherited.bind Descriptor.value?))
        (patch.writable.or (inherited.bind Descriptor.writable?))
        ((patch.getter.map some).or (inherited.bind Descriptor.getterField?))
        ((patch.setter.map some).or (inherited.bind Descriptor.setterField?)) =
      if patch.mixes inherited then .error (.mixedFields member)
      else .ok (patch.laidOver inherited).shape := by
  rcases patch with ⟨_ | value, _ | writable, _ | getter, _ | setter, _, _⟩ <;>
    rcases inherited with _ | ⟨_ | _, _, _⟩ <;> rfl

/-! ### Fields -/

section Given

variable {entries : List (String × Option Value)} (unique : (entries.map Prod.fst).Nodup)

abbrev given (entries : List (String × Option Value)) : List (String × Value) :=
  entries.filterMap fun field => field.2.map fun value => (field.1, value)

include unique

private theorem lookup_given (key : String) :
    (given entries).lookup key = (entries.lookup key).join := by
  induction entries with
  | nil => rfl
  | cons entry entries induction =>
      rcases entry with ⟨first, value⟩
      rw [List.map_cons, List.nodup_cons] at unique
      have rest := induction unique.2
      rw [List.lookup_cons]
      cases same : key == first with
      | false => cases value <;> simp [given, List.lookup_cons, same, rest]
      | true =>
          have absent : entries.lookup key = none := by
            rw [beq_iff_eq.mp same, List.lookup_eq_none_iff]
            intro entry member
            rw [bne_iff_ne]
            rintro rfl
            exact unique.1 (List.mem_map.mpr ⟨entry, member, rfl⟩)
          rw [absent] at rest
          cases value <;> simp [given, List.lookup_cons, same, rest]

private theorem nodup_keys_given : ((given entries).map Prod.fst).Nodup := by
  refine unique.sublist ?_
  induction entries with
  | nil => exact .slnil
  | cons entry entries induction =>
      rcases entry with ⟨first, _ | value⟩
      · exact (induction unique.of_cons).cons _
      · exact (induction unique.of_cons).cons_cons _

end Given

theorem nodup_keys_fields : (patch.fields.map Prod.fst).Nodup :=
  nodup_keys_given (by simp)

theorem lookup_fields (key : String) :
    patch.fields.lookup key =
      (List.lookup key
        [("value", patch.value), ("writable", patch.writable.map .boolean),
          ("get", patch.getter.map .procedure), ("set", patch.setter.map .procedure),
          ("enumerable", patch.enumerable.map .boolean),
          ("configurable", patch.configurable.map .boolean)]).join :=
  lookup_given (by simp) key

def fieldsOver : List (String × Value) :=
  patch.fields ++ (inherited.map Descriptor.fields).getD []

theorem lookup_fieldsOver {α : Type} (key : String) (ofPatch : Option α)
    (ofDescriptor : Descriptor → Option α) (write : α → Value)
    (gives : patch.fields.lookup key = ofPatch.map write)
    (has : ∀ descriptor : Descriptor,
      descriptor.fields.lookup key = (ofDescriptor descriptor).map write) :
    (patch.fieldsOver inherited).lookup key =
      (ofPatch.or (inherited.bind ofDescriptor)).map write := by
  rw [fieldsOver, List.lookup_append, gives]
  cases ofPatch with
  | some field => rfl
  | none =>
      cases inherited with
      | none => rfl
      | some descriptor => exact has descriptor

end Patch

namespace Descriptor

variable {meaning : Meaning σ} {world : World σ} {object : ObjectId}

theorem run_decode_over (patch : Patch) (inherited : Option Descriptor) (member : String)
    (records : world.store.Records object (patch.fieldsOver inherited)) :
    (decode meaning member object).run world =
      (if patch.mixes inherited then .error (.mixedFields member)
        else .ok (patch.laidOver inherited),
        world) := by
  have values := patch.lookup_fieldsOver inherited "value" patch.value value? id
    ((patch.lookup_fields _).trans (by cases patch.value <;> rfl))
    fun ⟨shape, _, _⟩ => by cases shape <;> rfl
  have writes := patch.lookup_fieldsOver inherited "writable" patch.writable writable? .boolean
    (patch.lookup_fields _) fun ⟨shape, _, _⟩ => by cases shape <;> rfl
  have gets := patch.lookup_fieldsOver inherited "get" (patch.getter.map some) getterField?
    .ofProcedure? ((patch.lookup_fields _).trans (by cases patch.getter <;> rfl))
    fun ⟨shape, _, _⟩ => by cases shape <;> rfl
  have sets := patch.lookup_fieldsOver inherited "set" (patch.setter.map some) setterField?
    .ofProcedure? ((patch.lookup_fields _).trans (by cases patch.setter <;> rfl))
    fun ⟨shape, _, _⟩ => by cases shape <;> rfl
  have enumerates := patch.lookup_fieldsOver inherited "enumerable" patch.enumerable
    (some ∘ Descriptor.enumerable) .boolean (patch.lookup_fields _)
    fun ⟨shape, _, _⟩ => by cases shape <;> rfl
  have configures := patch.lookup_fieldsOver inherited "configurable" patch.configurable
    (some ∘ Descriptor.configurable) .boolean (patch.lookup_fields _)
    fun ⟨shape, _, _⟩ => by cases shape <;> rfl
  rw [run_decode_of_records meaning _ _ _ _ _ member records writes gets sets enumerates
    configures, values, Option.map_id, id, patch.shapeOfFields_laidOver]
  split
  · rfl
  · cases inherited <;> rfl

end Descriptor

/-! ### Merging fields -/

namespace Store

variable {store : Store} {object : ObjectId} {fields : List (String × Value)}

private theorem Records.congr {others : List (String × Value)}
    (records : store.Records object fields)
    (same : ∀ key, others.lookup key = fields.lookup key) : store.Records object others where
  alone := records.alone
  own key := by rw [records.own, same]

private theorem Records.plain (records : store.Records object fields) (key : String)
    (descriptor : Descriptor) (owned : store.ownDescriptor? object key = some descriptor) :
    ∃ value, descriptor = .ofValue value := by
  rw [records.own] at owned
  rcases Option.map_eq_some_iff.mp owned with ⟨value, _, equal⟩
  exact ⟨value, equal.symm⟩

theorem Records.storeMember (records : store.Records object fields)
    (known : store.hasObject object = true) (key : String) (value : Value) :
    (store.storeMember object key (.ofValue value)).Records object ((key, value) :: fields) where
  alone := (parent_updateMembers ..).trans records.alone
  own other := by
    rw [List.lookup_cons]
    by_cases same : other = key
    · rw [beq_iff_eq.mpr same, same]
      exact ownDescriptor?_storeMember_same store object key _ known
    · rw [beq_false_of_ne same, ownDescriptor?_storeMember_other store _ fun both => same both.2]
      exact records.own other

theorem Records.changesOnly {target : ObjectId} {after : Store}
    (records : store.Records object fields) (known : store.hasObject object = true)
    (changes : ChangesOnly target store after) (apart : object ≠ target) :
    after.Records object fields where
  alone := (changes.extends_.object object known).2.trans records.alone
  own key := by
    rw [ownDescriptor?, changes.members object known apart, ← ownDescriptor?, records.own]

structure Drafts (before : Store) (fields more : List (String × Value)) (object given : ObjectId)
    (after : Store) : Prop where
  adds : before.OnlyAdds after
  apart : given ≠ object
  known : after.hasObject object = true
  records : after.Records object fields
  there : after.hasObject given = true
  gives : after.Records given more

theorem Drafts.of_encode {fields more : List (String × Value)}
    (unique : (fields.map Prod.fst).Nodup) (uniqueToo : (more.map Prod.fst).Nodup)
    (store : Store) :
    store.Drafts fields more (encode fields store).1 (encode more (encode fields store).2).1
      (encode more (encode fields store).2).2 := by
  have known : (encode fields store).2.hasObject (encode fields store).1 = true :=
    hasObject_encode fields store
  have apart := nextObject_ne known
  have adds := OnlyAdds.of_encode more (encode fields store).2
  exact {
    adds := (OnlyAdds.of_encode fields store).trans adds
    apart
    known := (adds.extends_.object _ known).1
    records := (records_encode unique store).changesOnly known (adds.changesOnly _) apart.symm
    there := hasObject_encode more _
    gives := records_encode uniqueToo _ }

theorem Records.mem_enumerableNames_iff (records : store.Records object fields) {key : String} :
    key ∈ store.enumerableNames object ↔ (fields.lookup key).isSome = true := by
  rw [Store.mem_enumerableNames_iff, descriptor?, records.lookup_eq]
  cases fields.lookup key with
  | none => simp
  | some value => simp [Descriptor.ofValue]

end Store

namespace Merge

variable (meaning : Meaning σ) (plan : Plan) {source : ObjectId}
  {fields recorded : List (String × Value)}

theorem run_mixMember_of_field {now : World σ} {name : String} {value : Value}
    (raw : plan.definer = .raw) (given : now.store.Records source fields)
    (records : now.store.Records plan.target recorded) (held : fields.lookup name = some value)
    (copied : now.store.Copied value) :
    (mixMember meaning plan source name []).run now =
      (.ok [], { now with store := now.store.storeMember plan.target name (.ofValue value) }) := by
  have found : now.store.lookup source name = some (source, .ofValue value) := by
    rw [given.lookup_eq, held, Option.map_some]
  have puts := run_put_of_plain meaning plan raw value (records.plain name)
  cases method : (Descriptor.ofValue value).method? with
  | none =>
      rw [run_mixMember_of_value meaning plan [] found method, Action.run_bind_of_ok _ puts,
        settledBy_nil]
      rfl
  | some incoming =>
      rcases copied incoming (Option.some.inj (Descriptor.value?_of_method? method)) with
        ⟨unhooked, implemented⟩
      rw [run_mixMember_of_unhooked meaning plan [] found method unhooked, implemented,
        Bool.false_and, if_neg Bool.false_ne_true, Action.run_bind_of_ok _ puts, settledBy_nil]
      rfl

theorem exists_run_mixFields (raw : plan.definer = .raw) (apart : source ≠ plan.target) :
    ∀ (names : List String) {recorded : List (String × Value)} (now : World σ),
      (∀ name ∈ names, (fields.lookup name).isSome = true) →
      now.store.hasObject source = true → now.store.Records source fields →
      now.store.hasObject plan.target = true → now.store.Records plan.target recorded →
      (∀ name value, fields.lookup name = some value → now.store.Copied value) →
      ∃ store, (names.foldlM (fun held name => mixMember meaning plan source name held) []).run
          now = (.ok [], { now with store := store }) ∧
        Store.ChangesOnly plan.target now.store store ∧ store.journal = now.store.journal ∧
        ∃ merged, store.Records plan.target merged ∧
          ∀ key, merged.lookup key =
            if key ∈ names then fields.lookup key else recorded.lookup key
  | [], recorded, now, _, _, _, _, records, _ =>
      ⟨now.store, rfl, .refl _ _, rfl, recorded, records, fun _ => (if_neg List.not_mem_nil).symm⟩
  | name :: names, recorded, now, listed, there, given, known, records, copied => by
      rcases Option.isSome_iff_exists.mp (listed name (List.mem_cons_self ..)) with ⟨value, held⟩
      let stored := now.store.storeMember plan.target name (.ofValue value)
      have changes : Store.ChangesOnly plan.target now.store stored :=
        .of_storeMember now.store plan.target name _
      rcases exists_run_mixFields raw apart names { now with store := stored }
        (fun other member => listed other (List.mem_cons_of_mem _ member))
        (changes.extends_.object _ there).1 (given.changesOnly there changes apart)
        (changes.extends_.object _ known).1 (records.storeMember known name value)
        (fun other value held => (copied other value held).extends changes.extends_) with
        ⟨store, ran, rest, journal, merged, recordsThen, lookups⟩
      refine ⟨store, ?_, changes.trans rest, journal, merged, recordsThen, fun key => ?_⟩
      · rw [List.foldlM_cons, Action.run_bind_of_ok _
          (run_mixMember_of_field meaning plan raw given records held (copied name value held))]
        exact ran
      · rw [lookups, List.lookup_cons]
        by_cases same : key = name
        · simp [same, held]
        · simp [same, beq_false_of_ne same]

end Merge

namespace Merge

variable (meaning : Meaning σ) {source target : ObjectId} {fields recorded : List (String × Value)}

theorem exists_run_mixin_fields (now : World σ) (apart : source ≠ target)
    (there : now.store.hasObject source = true) (given : now.store.Records source fields)
    (known : now.store.hasObject target = true) (records : now.store.Records target recorded)
    (copied : ∀ name value, fields.lookup name = some value → now.store.Copied value) :
    ∃ store, (mixin meaning target [.object source] .raw).run now =
        (.ok [], { now with store := store }) ∧
      Store.ChangesOnly target now.store store ∧ store.journal = now.store.journal ∧
      store.Records target (fields ++ recorded) := by
  let plan : Plan := ⟨target, .raw, [.object source]⟩
  have listed (name : String) : name ∈ now.store.enumerableNames source ↔
      (fields.lookup name).isSome = true := given.mem_enumerableNames_iff
  rcases exists_run_mixFields meaning plan rfl apart
    (now.store.enumerableNames source) now (fun name => (listed name).mp) there given known records
    copied with ⟨store, ran, changes, journal, merged, recordsThen, lookups⟩
  have ranSource : (mixSource meaning plan 0 (.object source) []).run now =
      (.ok [], { now with store := store }) := by
    rw [mixSource, Action.run_getStore_bind]
    exact ran
  refine ⟨store, ?_, changes, journal, recordsThen.congr fun key => ?_⟩
  · exact Action.run_bind_of_ok _ ranSource
  · rw [lookups, List.lookup_append]
    simp only [listed]
    cases fields.lookup key <;> rfl

end Merge

structure Patch.Plain (patch : Patch) (store : Store) : Prop where
  value : ∀ value, patch.value = some value → store.Copied value
  getter : ∀ getter, patch.getter = some getter → store.Copied (.procedure getter)
  setter : ∀ setter, patch.setter = some setter → store.Copied (.procedure setter)

private theorem Patch.Plain.copied {patch : Patch} {store : Store} (plain : patch.Plain store)
    {key : String} {value : Value} (held : patch.fields.lookup key = some value) :
    store.Copied value := by
  rcases List.lookup_eq_some_iff.mp held with ⟨before, after, split, _⟩
  have member : (key, value) ∈ patch.fields := by simp [split]
  have flag {given : Option Bool} (holds : given.map .boolean = some value) :
      store.Copied value := by
    rcases Option.map_eq_some_iff.mp holds with ⟨_, _, rfl⟩
    exact nofun
  rcases List.mem_filterMap.mp member with ⟨⟨first, field⟩, listed, given⟩
  rcases Option.map_eq_some_iff.mp given with ⟨_, holds, ⟨⟩⟩
  simp only [List.mem_cons, List.not_mem_nil, or_false, Prod.mk.injEq] at listed
  rcases listed with ⟨_, rfl⟩ | ⟨_, rfl⟩ | ⟨_, rfl⟩ | ⟨_, rfl⟩ | ⟨_, rfl⟩ | ⟨_, rfl⟩
  · exact plain.value value holds
  · exact flag holds
  · rcases Option.map_eq_some_iff.mp holds with ⟨getter, gives, rfl⟩
    exact plain.getter getter gives
  · rcases Option.map_eq_some_iff.mp holds with ⟨setter, gives, rfl⟩
    exact plain.setter setter gives
  · exact flag holds
  · exact flag holds

namespace Decorator

variable (meaning : Meaning σ) {world : World σ} {patch : Patch}

theorem exists_run_patched (name : String) (inherited : Descriptor)
    (plain : patch.Plain world.store) :
    ∃ store, (patched meaning name inherited patch).run world =
        (if patch.mixes inherited then .error (.mixedFields name)
          else .ok (patch.laidOver inherited),
          { world with store := store }) ∧
      world.store.OnlyAdds store := by
  let first := Store.encode inherited.fields world.store
  let second := Store.encode patch.fields first.2
  have drafts : world.store.Drafts inherited.fields patch.fields first.1 second.1 second.2 :=
    .of_encode inherited.nodup_keys_fields patch.nodup_keys_fields world.store
  have copied : ∀ name value, patch.fields.lookup name = some value →
      second.2.Copied value := fun name value held =>
    (plain.copied held).extends drafts.adds.extends_
  rcases Merge.exists_run_mixin_fields meaning { world with store := second.2 } drafts.apart
    drafts.there drafts.gives drafts.known drafts.records copied with
    ⟨store, ran, changes, journal, merged⟩
  refine ⟨store, ?_, drafts.adds.changing changes journal
    (Store.hasObject_nextObject_eq_false world.store)⟩
  rw [patched, Descriptor.encode, Action.run_edit_bind, Patch.encode, Action.run_edit_bind,
    Action.run_bind_of_ok _ ran]
  exact Descriptor.run_decode_over patch (some inherited) name merged

private theorem exists_run_complete (name : String) :
    ∃ store, (patch.complete meaning name).run world =
        (if patch.mixes none then .error (.mixedFields name) else .ok (patch.laidOver none),
          { world with store := store }) ∧
      world.store.OnlyAdds store := by
  refine ⟨_, ?_, .of_encode patch.fields world.store⟩
  have records := Store.records_encode patch.nodup_keys_fields world.store
  rw [Patch.complete, Patch.encode, Action.run_edit_bind]
  exact Descriptor.run_decode_over patch none name (records.congr fun _ => by
    rw [Patch.fieldsOver, Option.map_none, Option.getD_none, List.append_nil])

/-- Installing a patch works out the descriptor that has the fields which the patch gives, and for
the others those of what the destination resolves, and defines it. -/
theorem exists_run_installPatch {target : ObjectId}
    (plain : patch.Plain world.store) (name : String) :
    ∃ store, world.store.OnlyAdds store ∧
      (installPatch meaning patch target name).run world =
        if patch.mixes (world.store.descriptor? target name) then
          (.error (.mixedFields name), { world with store := store })
        else
          (Member.define target name (patch.laidOver (world.store.descriptor? target name))).run
            { world with store := store } := by
  have defines {work : Action σ Descriptor} {store : Store}
      (ran : work.run world =
        (if patch.mixes (world.store.descriptor? target name) then .error (.mixedFields name)
          else .ok (patch.laidOver (world.store.descriptor? target name)),
          { world with store := store })) :
      (work >>= Member.define target name).run world =
        if patch.mixes (world.store.descriptor? target name) then
          (.error (.mixedFields name), { world with store := store })
        else
          (Member.define target name (patch.laidOver (world.store.descriptor? target name))).run
            { world with store := store } := by
    split at ran
    · next mixes => rw [if_pos mixes, Action.run_bind_of_error _ ran]
    · next fits => rw [if_neg fits, Action.run_bind_of_ok _ ran]
  rw [installPatch, Action.run_getStore_bind]
  cases resolved : world.store.descriptor? target name with
  | some inherited =>
      rcases exists_run_patched meaning name inherited plain with ⟨store, ran, adds⟩
      rw [resolved] at defines
      exact ⟨store, adds, defines ran⟩
  | none =>
      rcases exists_run_complete meaning name with ⟨store, ran, adds⟩
      rw [resolved] at defines
      exact ⟨store, adds, defines ran⟩

/-- Installing a patch changes exactly the fields that the patch gives, provided that none of them
is a decorator or a requirement. If there are procedures and also a value or a word on whether it
can be assigned, or if the destination owns a member that may not be redefined like that, the
install fails and nothing that was there has changed. Otherwise the destination owns what the patch
comes to over what it resolved, and no other member has changed. -/
theorem installs_patch {target : ObjectId} {name : String} {inherited : Option Descriptor}
    (known : world.store.hasObject target = true)
    (plain : patch.Plain world.store)
    (resolved : world.store.descriptor? target name = inherited) :
    (patch.mixes inherited = true →
      ∃ store, (install meaning (.patch patch) target name).run world =
          (.error (.mixedFields name), { world with store := store }) ∧
        world.store.OnlyAdds store) ∧
    (patch.mixes inherited = false →
      world.store.accepts target name (patch.laidOver inherited) = false →
      ∃ store, (install meaning (.patch patch) target name).run world =
          (.error (.notConfigurable name), { world with store := store }) ∧
        world.store.OnlyAdds store) ∧
    (patch.mixes inherited = false →
      world.store.accepts target name (patch.laidOver inherited) = true →
      ∃ store, (install meaning (.patch patch) target name).run world =
          (.ok (), { world with store := store }) ∧
        store.ownDescriptor? target name = some (patch.laidOver inherited) ∧
        world.store.Confined target [name] store) := by
  rcases exists_run_installPatch meaning plain name with ⟨store, adds, ran⟩
  rw [resolved] at ran
  have accepts : store.accepts target name (patch.laidOver inherited) =
      world.store.accepts target name (patch.laidOver inherited) := by
    rw [Store.accepts, Store.accepts, Store.ownDescriptor?, Store.ownDescriptor?,
      adds.members_eq known]
  refine ⟨fun mixes => ?_, fun fits locked => ?_, fun fits open_ => ?_⟩
  · rw [if_pos mixes] at ran
    exact ⟨store, ran, adds⟩
  · rw [if_neg (by rw [fits]; exact Bool.false_ne_true), Member.define, Action.run_getStore_bind,
      accepts, locked] at ran
    exact ⟨store, ran, adds⟩
  · rw [if_neg (by rw [fits]; exact Bool.false_ne_true), Member.define, Action.run_getStore_bind,
      accepts, open_] at ran
    refine ⟨_, ran, ?_, ?_⟩
    · exact Store.ownDescriptor?_storeMember_same _ _ _ _ (adds.extends_.object target known).1
    · exact (adds.confined known []).trans (.of_storeMember store target name _)

/-- An object that delegates to one with a hidden accessor, and a locked member of its own. -/
def guarded : World Unit where
  store := {
    objects := #[
      { members := .ofEntries [("size", ⟨.accessor (some ⟨1⟩) none, false, false⟩)] },
      { parent := some ⟨0⟩,
        members := .ofEntries [("key", ⟨.data .null false, true, false⟩)] }]
    procedures := #[{ body := .required }, { body := .code ⟨0⟩ }, { body := .code ⟨1⟩ }] }
  state := ()

/-- The inherited accessor gets a setter and is shown, and keeps its getter. -/
theorem installs_patch_of_guarded :
    ∃ store, (install (.ofBudget 0) (.patch { setter := some ⟨2⟩, enumerable := some true }) ⟨1⟩
          "size").run guarded = (.ok (), { guarded with store := store }) ∧
      store.ownDescriptor? ⟨1⟩ "size" = some ⟨.accessor (some ⟨1⟩) (some ⟨2⟩), true, false⟩ ∧
      guarded.store.Confined ⟨1⟩ ["size"] store :=
  have plain : Patch.Plain { setter := some ⟨2⟩, enumerable := some true } guarded.store :=
    ⟨nofun, nofun, by rintro _ ⟨⟩ _ ⟨⟩; exact ⟨rfl, rfl⟩⟩
  (installs_patch (.ofBudget 0) (by decide) plain rfl).2.2 (by decide) (by decide)

end Decorator

end TraitComposition
