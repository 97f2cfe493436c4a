import TraitComposition.Proofs.Merge.Weighing
import TraitComposition.Proofs.Store.Regions

/-!
Bare tables whose members are writable values. Merged into a destination they are folded, name by
name: the value that a table enumerates takes the place of what there is, unless it is a
requirement. A table may delegate to the destination, too: a name that it reads through the
destination comes back as it is.
-/
namespace TraitComposition

variable {σ : Type}

namespace Store

/-! ### Folding -/

def isMarker (store : Store) : Value → Bool
  | .procedure method => store.isRequired method
  | _ => false

def replaced (store : Store) : (current given : Option Value) → Option Value
  | none, given => given
  | some current, none => some current
  | some current, some given => some (if store.isMarker given then current else given)

/-- The value that a table gives to a destination. What the table reads through the destination is
whatever the destination holds. -/
def given (store : Store) (target : ObjectId) (name : String) (current : Option Value)
    (table : ObjectId) : Option Value :=
  if store.readsThrough table target name then current else store.dataValue? table name

/-- What comes of the value of a name when tables are merged: the ones that enumerate the name give
theirs, one after the other. -/
def foldTables (store : Store) (target : ObjectId) (name : String) (tables : List ObjectId)
    (current : Option Value) : Option Value :=
  (tables.filter (name ∈ store.enumerableNames ·)).foldl
    (fun current table => store.replaced current (store.given target name current table)) current

private theorem replaced_self (store : Store) (current : Option Value) :
    store.replaced current current = current := by
  cases current with
  | none => rfl
  | some value => rw [replaced, ite_self]

private theorem foldTables_append (store : Store) (target : ObjectId) (name : String)
    (tables more : List ObjectId) (current : Option Value) :
    store.foldTables target name (tables ++ more) current =
      store.foldTables target name more (store.foldTables target name tables current) := by
  rw [foldTables, List.filter_append, List.foldl_append, ← foldTables, ← foldTables]

private theorem foldTables_singleton (store : Store) (target : ObjectId) (name : String)
    (table : ObjectId) (current : Option Value) :
    store.foldTables target name [table] current =
      if name ∈ store.enumerableNames table then
        store.replaced current (store.given target name current table)
      else current := by
  by_cases listed : name ∈ store.enumerableNames table <;> simp [foldTables, listed]

structure Assignable (store : Store) (descriptor : Descriptor) : Prop where
  writable : descriptor.isWritable = true
  undecorated : ∀ method, descriptor.method? = some method → (store.procedure method).hook = none

/-! ### The destination -/

structure Folding (start now : Store) (target : ObjectId) (named : String → Prop) : Prop where
  only : ∃ members, now = start.updateMembers target fun _ => members
  settled : ∀ name, now.lookup target name = start.lookup target name ∨
    named name ∧ ∃ descriptor, now.ownDescriptor? target name = some descriptor ∧
      start.Assignable descriptor

namespace Folding

variable {start now : Store} {target : ObjectId} {named : String → Prop} {name : String}
  {descriptor : Descriptor}

theorem refl (start : Store) (target : ObjectId) (named : String → Prop) :
    start.Folding start target named where
  only := ⟨start.members target, (start.updateMembers_members target).symm⟩
  settled _ := .inl rfl

variable (folding : start.Folding now target named)

include folding

private theorem changes : ChangesOnly target start now := by
  rcases folding.only with ⟨members, rfl⟩
  exact .of_updateMembers start target fun _ => members

private theorem procedure_eq (reference : ProcedureId) :
    now.procedure reference = start.procedure reference := by
  rcases folding.only with ⟨members, rfl⟩
  rfl

private theorem storeMember (known : start.hasObject target = true) (rooted : start.Rooted)
    (allowed : named name) (assignable : start.Assignable descriptor) :
    start.Folding (now.storeMember target name descriptor) target named where
  only := by
    rcases folding.only with ⟨members, rfl⟩
    exact ⟨members.insert name descriptor, start.updateMembers_updateMembers target _ _⟩
  settled other := by
    have knownNow := (folding.changes.extends_.object target known).1
    by_cases same : other = name
    · subst other
      exact .inr ⟨allowed, descriptor, ownDescriptor?_storeMember_same _ _ _ _ knownNow, assignable⟩
    · have changes := ChangesWithin.of_storeMember now target name descriptor
      rw [changes.lookup_eq (folding.changes.rooted rooted) knownNow fun _ _ both => same both.2,
        ownDescriptor?_storeMember_other now descriptor fun both => same both.2]
      exact folding.settled other

variable (writable : ∀ descriptor, start.descriptor? target name = some descriptor →
  descriptor.isWritable = true)

include writable in
theorem writable_now (resolved : now.descriptor? target name = some descriptor) :
    ∃ value, descriptor.shape = .data value true := by
  rw [← Descriptor.isWritable_iff]
  rcases folding.settled name with same | ⟨_, owned, found, assignable⟩
  · rw [descriptor?, same] at resolved
    exact writable descriptor resolved
  · rw [descriptor?_of_own found] at resolved
    cases resolved
    exact assignable.writable

end Folding

end Store

/-! ### Tables -/

namespace Merge

section Tables

variable (meaning : Meaning σ) {start : Store} {now : World σ} {plan : Plan} {table : ObjectId}
  {named : String → Prop} (rooted : start.Rooted) (raw : plan.definer = .raw)
  (known : start.hasObject plan.target = true) (there : start.hasObject table = true)
  (writable : ∀ name, named name → ∀ descriptor,
    start.descriptor? plan.target name = some descriptor → descriptor.isWritable = true)
  (assignable : ∀ name ∈ start.enumerableNames table, named name ∧
    ∀ descriptor, start.descriptor? table name = some descriptor → start.Assignable descriptor)
  (folding : start.Folding now.store plan.target named)

include rooted there assignable folding

theorem assignable_of_listed {name : String} {descriptor : Descriptor}
    (listed : name ∈ now.store.enumerableNames table)
    (resolved : now.store.descriptor? table name = some descriptor) :
    named name ∧ start.Assignable descriptor ∧
      start.given plan.target name (now.store.dataValue? plan.target name) table =
        descriptor.value? := by
  have changes := Store.ChangesWithin.of_changesOnly folding.changes
  have enumerable : descriptor.enumerable = true := by
    rcases Store.mem_enumerableNames_iff.mp listed with ⟨_, found, enumerable⟩
    rw [resolved] at found
    cases found
    exact enumerable
  have fromStart (same : start.descriptor? table name = some descriptor) :
      named name ∧ start.Assignable descriptor := by
    rcases assignable name (Store.mem_enumerableNames_iff.mpr ⟨descriptor, same, enumerable⟩) with
      ⟨allowed, all⟩
    exact ⟨allowed, all descriptor same⟩
  rw [Store.given]
  cases through : start.readsThrough table plan.target name with
  | false =>
      have same := Store.lookup_of_not_readsThrough rooted there changes through
      rw [Store.descriptor?, same, ← Store.descriptor?] at resolved
      rw [if_neg Bool.false_ne_true, Store.dataValue?, resolved]
      rcases fromStart resolved with ⟨allowed, assigns⟩
      exact ⟨allowed, assigns, rfl⟩
  | true =>
      have onward := Store.lookup_of_readsThrough rooted there changes through
      have before := Store.lookup_of_readsThrough rooted there (.refl _ start) through
      rw [Store.descriptor?, onward, ← Store.descriptor?] at resolved
      rw [if_pos rfl, Store.dataValue?, resolved]
      rcases folding.settled name with same | ⟨allowed, owned, found, assigns⟩
      · rw [Store.descriptor?, same, ← before, ← Store.descriptor?] at resolved
        rcases fromStart resolved with ⟨allowed, assigns⟩
        exact ⟨allowed, assigns, rfl⟩
      · rw [Store.descriptor?_of_own found] at resolved
        cases resolved
        exact ⟨allowed, assigns, rfl⟩

omit rooted there assignable

include raw writable

theorem exists_run_put_assignable {name : String} {descriptor : Descriptor} {value : Value}
    (allowed : named name) (assigns : start.Assignable descriptor)
    (shape : descriptor.shape = .data value true) :
    ∃ stored, (put meaning plan name descriptor).run now =
        (.ok (), { now with store := now.store.storeMember plan.target name stored }) ∧
      stored.value? = some value ∧ start.Assignable stored := by
  have valued : descriptor.value? = some value := by rw [Descriptor.value?, shape]
  cases owned : now.store.ownDescriptor? plan.target name with
  | none => exact ⟨descriptor, run_put_of_not_owned meaning plan _ raw owned, valued, assigns⟩
  | some existing =>
      rcases folding.writable_now (writable name allowed) (Store.descriptor?_of_own owned) with
        ⟨old, open_⟩
      have shapeThen : (existing.withValue value).shape = .data value true := by
        rw [Descriptor.withValue, open_]
      have valuedThen : (existing.withValue value).value? = some value := by
        rw [Descriptor.value?, shapeThen]
      refine ⟨_, run_put_of_owned meaning plan valued owned open_, valuedThen,
        ⟨Descriptor.isWritable_iff.mpr ⟨value, shapeThen⟩, ?_⟩⟩
      intro method holds
      apply assigns.undecorated method
      rw [Descriptor.method?, valued, ← valuedThen]
      exact holds

include rooted known there assignable

theorem exists_run_replace {name : String} (listed : name ∈ now.store.enumerableNames table) :
    ∃ later, (mixMember meaning plan table name []).run now =
        (.ok [], { now with store := later }) ∧
      start.Folding later plan.target named ∧
      Store.ChangesWithin (.member plan.target name) now.store later ∧
      later.dataValue? plan.target name =
        start.replaced (now.store.dataValue? plan.target name)
          (start.given plan.target name (now.store.dataValue? plan.target name) table) := by
  rcases Store.exists_lookup_of_mem_enumerableNames listed with ⟨owner, descriptor, found⟩
  have resolved : now.store.descriptor? table name = some descriptor := by
    rw [Store.descriptor?, found, Option.map_some]
  rcases assignable_of_listed rooted there assignable folding listed resolved with
    ⟨allowed, assigns, given⟩
  rcases Descriptor.isWritable_iff.mp assigns.writable with ⟨value, shape⟩
  have valued : descriptor.value? = some value := by rw [Descriptor.value?, shape]
  rw [given, valued]
  have stores (gives : start.replaced (now.store.dataValue? plan.target name) (some value) =
        some value) :
      ∃ later, (put meaning plan name descriptor >>= fun _ =>
            pure (settledBy owner table name [])).run now = (.ok [], { now with store := later }) ∧
        start.Folding later plan.target named ∧
        Store.ChangesWithin (.member plan.target name) now.store later ∧
        later.dataValue? plan.target name =
          start.replaced (now.store.dataValue? plan.target name) (some value) := by
    rcases exists_run_put_assignable meaning raw writable folding allowed assigns shape with
      ⟨stored, ran, valuedThen, assignsThen⟩
    have owned := Store.ownDescriptor?_storeMember_same now.store plan.target name stored
      (folding.changes.extends_.object plan.target known).1
    refine ⟨now.store.storeMember plan.target name stored, ?_,
      folding.storeMember known rooted allowed assignsThen,
      .of_storeMember now.store plan.target name stored, ?_⟩
    · rw [settledBy_nil, Action.run_bind_of_ok _ ran]
      rfl
    · rw [gives, Store.dataValue?, Store.descriptor?_of_own owned]
      exact valuedThen
  cases simple : descriptor.method? with
  | none =>
      rw [run_mixMember_of_value meaning plan [] found simple]
      apply stores
      rw [Descriptor.method?, valued] at simple
      cases now.store.dataValue? plan.target name with
      | none => rfl
      | some current => cases value <;> first | rfl | cases simple
  | some method =>
      have unhooked := assigns.undecorated method simple
      obtain rfl := Option.some.inj (valued.symm.trans (Descriptor.value?_of_method? simple))
      rw [← folding.procedure_eq] at unhooked
      have required : now.store.isRequired method = start.isRequired method := by
        rw [Store.isRequired, folding.procedure_eq, ← Store.isRequired]
      have has : now.store.has plan.target name =
          (now.store.descriptor? plan.target name).isSome := by
        rw [Store.has, Store.descriptor?, Option.isSome_map]
      rw [run_mixMember_of_unhooked meaning plan [] found simple unhooked, required, has]
      split
      · next marker =>
        rw [Bool.and_eq_true, Option.isSome_iff_exists] at marker
        rcases marker with ⟨marks, current, resolvedThen⟩
        rcases folding.writable_now (writable name allowed) resolvedThen with ⟨old, shapeThen⟩
        refine ⟨now.store, rfl, folding, .refl _ now.store, ?_⟩
        rw [Store.dataValue?, resolvedThen, Option.bind_some, Descriptor.value?, shapeThen,
          Store.replaced, Store.isMarker, if_pos marks]
      · next free =>
        apply stores
        rw [Store.dataValue?]
        cases resolvedThen : now.store.descriptor? plan.target name with
        | none => rfl
        | some current =>
            rcases folding.writable_now (writable name allowed) resolvedThen with ⟨old, shapeThen⟩
            rw [resolvedThen, Option.isSome_some, Bool.and_true] at free
            rw [Option.bind_some, Descriptor.value?, shapeThen, Store.replaced, Store.isMarker,
              if_neg free]

theorem exists_run_replaceNames {names : List String} (unique : names.Nodup)
    (listed : ∀ name ∈ names, name ∈ now.store.enumerableNames table) :
    ∃ later, (names.foldlM (fun held name => mixMember meaning plan table name held) []).run now =
        (.ok [], { now with store := later }) ∧
      start.Folding later plan.target named ∧
      ∀ name, later.dataValue? plan.target name =
        if name ∈ names then
          start.replaced (now.store.dataValue? plan.target name)
            (start.given plan.target name (now.store.dataValue? plan.target name) table)
        else now.store.dataValue? plan.target name := by
  induction names generalizing now with
  | nil => exact ⟨now.store, rfl, folding, fun name => (if_neg List.not_mem_nil).symm⟩
  | cons name names induction =>
      rcases exists_run_replace meaning rooted raw known there writable assignable folding
        (listed name (List.mem_cons_self ..)) with ⟨between, ran, foldingThen, changes, replaced⟩
      have rootedNow := folding.changes.rooted rooted
      have extends_ := folding.changes.extends_
      have fresh : name ∉ names := (List.nodup_cons.mp unique).1
      have listedThen : ∀ other ∈ names, other ∈ between.enumerableNames table := by
        intro other member
        have apart : ∀ level ∈ now.store.ancestry table,
            ¬Store.Region.member plan.target name level other :=
          fun _ _ both => fresh (both.2 ▸ member)
        rw [Store.mem_enumerableNames_iff,
          changes.descriptor?_eq rootedNow (extends_.object table there).1 apart,
          ← Store.mem_enumerableNames_iff]
        exact listed other (List.mem_cons_of_mem _ member)
      let next : World σ := { now with store := between }
      have foldingNext : start.Folding next.store plan.target named := foldingThen
      rcases induction foldingNext unique.of_cons listedThen with
        ⟨later, ranRest, foldingRest, rest⟩
      refine ⟨later, (Action.run_bind_of_ok _ ran).trans ranRest, foldingRest, fun other => ?_⟩
      rw [rest]
      by_cases same : other = name
      · subst other
        rw [if_neg fresh, replaced, if_pos (List.mem_cons_self ..)]
      · have unmoved : next.store.dataValue? plan.target other =
            now.store.dataValue? plan.target other :=
          changes.dataValue?_eq rootedNow (extends_.object plan.target known).1
            fun _ _ both => same both.2
        simp only [unmoved, List.mem_cons, same, false_or]

theorem exists_run_foldTable (index : Nat) :
    ∃ later, (mixSource meaning plan index (.object table) []).run now =
        (.ok [], { now with store := later }) ∧
      start.Folding later plan.target named ∧
      ∀ name, later.dataValue? plan.target name =
        start.foldTables plan.target name [table] (now.store.dataValue? plan.target name) := by
  rcases exists_run_replaceNames meaning rooted raw known there writable assignable folding
    (now.store.nodup_enumerableNames table) (fun name member => member) with
    ⟨later, ran, foldingThen, values⟩
  refine ⟨later, ?_, foldingThen, fun name => ?_⟩
  · rw [mixSource, Action.run_getStore_bind]
    exact ran
  · rw [values, Store.foldTables_singleton]
    cases through : start.readsThrough table plan.target name with
    | true => rw [Store.given, if_pos through, Store.replaced_self, ite_self, ite_self]
    | false =>
        have same := Store.lookup_of_not_readsThrough rooted there
          (.of_changesOnly folding.changes) through
        have listed : name ∈ now.store.enumerableNames table ↔
            name ∈ start.enumerableNames table := by
          rw [Store.mem_enumerableNames_iff, Store.descriptor?, same, ← Store.descriptor?,
            ← Store.mem_enumerableNames_iff]
        simp only [listed]

omit there assignable in
theorem exists_run_foldTables {tables : List ObjectId} (index : Nat)
    (there : ∀ table ∈ tables, start.hasObject table = true)
    (assignable : ∀ table ∈ tables, ∀ name ∈ start.enumerableNames table, named name ∧
      ∀ descriptor, start.descriptor? table name = some descriptor →
        start.Assignable descriptor) :
    ∃ later, (mixSources meaning plan index (tables.map .object) []).run now =
        (.ok [], { now with store := later }) ∧
      start.Folding later plan.target named ∧
      ∀ name, later.dataValue? plan.target name =
        start.foldTables plan.target name tables (now.store.dataValue? plan.target name) := by
  induction tables generalizing now index with
  | nil => exact ⟨now.store, rfl, folding, fun _ => rfl⟩
  | cons table tables induction =>
      rw [List.forall_mem_cons] at there assignable
      rcases exists_run_foldTable meaning rooted raw known there.1 writable assignable.1 folding
        index with ⟨between, ran, foldingThen, values⟩
      let next : World σ := { now with store := between }
      have foldingNext : start.Folding next.store plan.target named := foldingThen
      rcases induction foldingNext (index + 1) there.2 assignable.2 with
        ⟨later, ranRest, foldingRest, rest⟩
      refine ⟨later, (Action.run_bind_of_ok _ ran).trans ranRest, foldingRest, fun name => ?_⟩
      rw [rest, values, ← Store.foldTables_append, List.singleton_append]

end Tables

end Merge

section Destination

variable (meaning : Meaning σ) {world : World σ} {target : ObjectId} {tables : List ObjectId}

/-- Merging tables of writable values is a fold. If nothing that bare tables enumerate is a
decorator, an accessor or locked, or is an accessor or locked for the destination, then the merge
succeeds without a conflict and changes nothing but members of the destination. A name then resolves
to what it resolved to before, with the values of the tables that enumerate it put in its place one
after the other, except that a requirement never takes the place of a value; what no table
enumerates resolves as before. -/
theorem mixin_folds_tables (rooted : world.store.Rooted)
    (known : world.store.hasObject target = true)
    (there : ∀ table ∈ tables, world.store.hasObject table = true)
    (writable : ∀ table ∈ tables, ∀ name ∈ world.store.enumerableNames table, ∀ descriptor,
      world.store.descriptor? target name = some descriptor → descriptor.isWritable = true)
    (assignable : ∀ table ∈ tables, ∀ name ∈ world.store.enumerableNames table, ∀ descriptor,
      world.store.descriptor? table name = some descriptor → world.store.Assignable descriptor) :
    ∃ later, (∃ members, later = world.store.updateMembers target fun _ => members) ∧
      (mixin meaning target (tables.map .object) .raw).run world =
        (.ok [], { world with store := later }) ∧
      (∀ name, later.dataValue? target name =
        world.store.foldTables target name tables (world.store.dataValue? target name)) ∧
      ∀ name, (∀ table ∈ tables, name ∉ world.store.enumerableNames table) →
        later.descriptor? target name = world.store.descriptor? target name := by
  let named (name : String) : Prop := ∃ table ∈ tables, name ∈ world.store.enumerableNames table
  let plan : Merge.Plan := ⟨target, .raw, tables.map .object⟩
  have writableNamed : ∀ name, named name → ∀ descriptor,
      world.store.descriptor? target name = some descriptor → descriptor.isWritable = true := by
    rintro name ⟨table, member, listed⟩
    exact writable table member name listed
  rcases Merge.exists_run_foldTables meaning rooted (rfl : plan.definer = .raw) known writableNamed
    (.refl world.store target named) 0 there (fun table member name listed =>
      ⟨⟨table, member, listed⟩, assignable table member name listed⟩) with
    ⟨later, ran, folding, values⟩
  refine ⟨later, folding.only, ran, values, fun name unlisted => ?_⟩
  rcases folding.settled name with same | ⟨⟨table, member, listed⟩, _⟩
  · rw [Store.descriptor?, same, ← Store.descriptor?]
  · exact absurd listed (unlisted table member)

/-- A destination with a method, which inherits a value; a table with two other values; one that
delegates to it, with another value and two requirements; and a table that delegates to the
destination. -/
def overlappingTables : World Unit where
  store := {
    objects := #[
      { members := .ofEntries [("size", .ofValue .null)] },
      { parent := some ⟨0⟩, members := .ofEntries [("run", .ofValue (.procedure ⟨1⟩))] },
      { members := .ofEntries [("size", .ofValue (.boolean true)),
          ("name", .ofValue (.text "first"))] },
      { parent := some ⟨2⟩,
        members := .ofEntries [("run", .ofValue (.procedure ⟨0⟩)),
          ("stop", .ofValue (.procedure ⟨0⟩)), ("name", .ofValue (.text "second"))] },
      { parent := some ⟨1⟩ }]
    procedures := #[{ body := .required }, { body := .code ⟨0⟩ }] }
  state := ()

/-- The inherited value is hidden, the method survives the requirement, and the table that comes
last gives back what there is. -/
theorem mixin_folds_tables_of_overlapping :
    ∃ later, (mixin (.ofBudget 0) ⟨1⟩ ([⟨2⟩, ⟨3⟩, ⟨4⟩].map .object) .raw).run overlappingTables =
        (.ok [], { overlappingTables with store := later }) ∧
      later.dataValue? ⟨1⟩ "size" = some (.boolean true) ∧
      later.dataValue? ⟨1⟩ "run" = some (.procedure ⟨1⟩) ∧
      later.dataValue? ⟨1⟩ "stop" = some (.procedure ⟨0⟩) ∧
      later.dataValue? ⟨1⟩ "name" = some (.text "second") := by
  let tables : List ObjectId := [⟨2⟩, ⟨3⟩, ⟨4⟩]
  let start := overlappingTables.store
  have open_ : ∀ table ∈ tables, ∀ name ∈ start.enumerableNames table,
      (start.descriptor? ⟨1⟩ name).all Descriptor.isWritable = true := by
    decide +kernel
  have values : ∀ table ∈ tables, ∀ name ∈ start.enumerableNames table,
      (start.descriptor? table name).all Descriptor.isWritable = true := by
    decide +kernel
  have unhooked (method : ProcedureId) : (start.procedure method).hook = none := by
    rcases method with ⟨_ | _ | index⟩ <;> rfl
  rcases mixin_folds_tables (.ofBudget 0) (Store.rooted_iff.mpr (by decide))
    (by decide) (by decide)
    (fun table member name listed => (Option.all_eq_true _ _).mp (open_ table member name listed))
    (fun table member name listed descriptor resolved =>
      ⟨(Option.all_eq_true _ _).mp (values table member name listed) descriptor resolved,
        fun method _ => unhooked method⟩) with ⟨later, _, ran, folded, _⟩
  exact ⟨later, ran, (folded "size").trans rfl, (folded "run").trans rfl, (folded "stop").trans rfl,
    (folded "name").trans rfl⟩

end Destination

end TraitComposition
