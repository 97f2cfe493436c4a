import TraitComposition.Proofs.Composition.Permutations

/-!
Clashes of a base with one more source. What the composition of the two reports can be read off
the tables as they are before: a method of the source clashes if it is the source's own, the base
resolves its name to another one, and neither of the two has overridden the other. Exactly the
clashes are reported, in the order of the source's names.
-/
namespace TraitComposition

variable {σ : Type}

namespace Store

/-- Whether a conflict is a clash: two implementations under a name that the source enumerates,
the one the source's own, the other what the base resolves. No table of the source resolves the
name to what the base does, and no object on the base's line of delegation owns under it what
the source brings. -/
structure Clashes (store : Store) (base source : Value) (conflict : Conflict) : Prop where
  listed : conflict.member ∈ store.sourceNames source
  brought : ∃ table descriptor, store.front? source = some table ∧
    store.ownDescriptor? table conflict.member = some descriptor ∧
    descriptor.method? = some conflict.incoming
  there : ∃ table, store.front? base = some table ∧
    store.dataValue? table conflict.member = some (.procedure conflict.existing) ∧
    ∀ level ∈ store.ancestry table, (store.ownDescriptor? level conflict.member).bind
      Descriptor.value? ≠ some (.procedure conflict.incoming)
  different : conflict.existing ≠ conflict.incoming
  implemented : store.isRequired conflict.existing = false ∧
    store.isRequired conflict.incoming = false
  untouched : ∀ table ∈ store.sourceTables source,
    store.dataValue? table conflict.member ≠ some (.procedure conflict.existing)

theorem Clashes.own_of_lookup {store : Store} {base source : Value} {conflict : Conflict}
    {table owner : ObjectId} {descriptor : Descriptor}
    (clashes : store.Clashes base source conflict) (front : store.front? source = some table)
    (found : store.lookup table conflict.member = some (owner, descriptor)) :
    owner = table ∧ descriptor.method? = some conflict.incoming := by
  rcases clashes.brought with ⟨other, own, frontToo, owned, holds⟩
  obtain rfl : table = other := Option.some.inj (front.symm.trans frontToo)
  rw [lookup_of_own owned] at found
  cases found
  exact ⟨rfl, holds⟩

/-! ### A new object over a base -/

structure Mirrors (origin : Store) (base : Value) (target : ObjectId) (begun : Store) : Prop where
  resolves : ∀ name value, begun.dataValue? target name = some value ↔
    ∃ table, origin.front? base = some table ∧ origin.dataValue? table name = some value
  inherits : ∀ table, origin.front? base = some table → ∀ name method,
    (begun.inherits target name (.procedure method) = true ↔
      ∃ level ∈ origin.ancestry table,
        (origin.ownDescriptor? level name).bind Descriptor.value? = some (.procedure method))

private theorem Mirrors.of_front {store : Store} {base : Value} {table : ObjectId}
    (rooted : store.Rooted) (front : store.front? base = some table)
    (known : store.hasObject table = true) :
    store.Mirrors base store.nextObject (store.delegating table) := by
  have adds : store.AddsTable table (store.delegating table) := .of_delegating known
  refine ⟨fun name value => ?_, fun other same name method => ?_⟩
  · rw [adds.dataValue?_nextObject rooted known
      (ownDescriptor?_delegating_nextObject store table name), front]
    simp
  · obtain rfl : table = other := Option.some.inj (front.symm.trans same)
    exact adds.inherits_nextObject_iff rooted known

theorem Mirrors.of_tableless {store : Store} {reference : ProcedureId} (rooted : store.Rooted)
    (missing : store.table? reference = none) :
    store.Mirrors (.procedure reference) (store.prototypeOf reference).2.nextObject
      ((store.prototypeOf reference).2.delegating (store.prototypeOf reference).1) := by
  have blank := (blank_prototypeOf_iff store reference).mpr
    (blank_of_not_hasObject (hasObject_nextObject_eq_false store))
  have known : (store.prototypeOf reference).2.hasObject store.nextObject = true := by
    rw [(prototypeOf_of_table?_eq_none missing).2]
    exact hasObject_createObject_self store none
  have tabled := (OnlyAdds.of_prototypeOf store reference).rooted rooted
  have first : (store.prototypeOf reference).1 = store.nextObject := by
    rw [(prototypeOf_of_table?_eq_none missing).2]
  rw [first]
  refine ⟨fun name value => ?_, fun table front => ?_⟩
  · rw [(AddsTable.of_delegating known).dataValue?_nextObject tabled known
        (ownDescriptor?_delegating_nextObject _ _ name),
      dataValue?, blank.descriptor?_eq_none, front?, missing]
    simp
  · rw [front?, missing] at front
    cases front

end Store

private theorem Store.mirrors_delegating_prototypeOf {store : Store} {reference : ProcedureId}
    (rooted : store.Rooted) (tables : store.HasTablesOf (.procedure reference)) :
    store.Mirrors (.procedure reference) (store.prototypeOf reference).2.nextObject
      ((store.prototypeOf reference).2.delegating (store.prototypeOf reference).1) := by
  cases found : store.table? reference with
  | some table =>
      rw [prototypeOf_of_table? found]
      exact .of_front rooted found (tables.front table found)
  | none => exact .of_tableless rooted found

theorem Sources.mirrors_of_run_delegate {base : Value} {world delegated : World σ}
    {target : ObjectId} (rooted : world.store.Rooted) (tables : world.store.HasTablesOf base)
    (ran : (delegate base).run world = (.ok target, delegated)) :
    world.store.Mirrors base target delegated.store := by
  cases base with
  | object table =>
      cases ran
      exact .of_front rooted rfl (tables.front table rfl)
  | procedure reference =>
      cases ran
      exact Store.mirrors_delegating_prototypeOf rooted tables
  | _ => cases ran

namespace Merge

open Store (Offer)

theorem weighed_eq_conflict_iff {store : Store} {target : ObjectId}
    {throughThis ownChain : List ObjectId} {name : String} {own : Bool}
    {incoming existing : ProcedureId} {current : Option Value}
    (held : store.chainHolds throughThis name (.procedure incoming) = true) :
    weighed store target [] throughThis ownChain name own incoming current = .conflict existing ↔
      current = some (.procedure existing) ∧ existing ≠ incoming ∧
      store.isRequired existing = false ∧ store.isRequired incoming = false ∧ own = true ∧
      store.chainHolds ownChain name (.procedure existing) = false ∧
      store.inherits target name (.procedure incoming) = false := by
  have nothing : store.chainHolds [] name (.procedure incoming) = false := rfl
  rcases rival_or_alone current incoming with ⟨rival, different, rfl⟩ | alone
  · rw [weighed, if_neg different]
    unfold Rivalry.resolve Rivalry.overridesExisting
    simp only [held, nothing, Bool.or_false]
    grind
  · rw [weighed_of_no_rival alone]
    constructor
    · rintro ⟨⟩
    · rintro ⟨resolved, different, _⟩
      exact absurd (alone existing resolved) different

private theorem Verdict.conflict_ofResolution_iff {kept : Option Descriptor} {name : String}
    {descriptor : Descriptor} {incoming : ProcedureId} {resolution : Resolution}
    {conflict : Conflict} :
    (ofResolution kept name descriptor incoming resolution).conflict = some conflict ↔
      resolution = .conflict conflict.existing ∧ conflict.member = name ∧
        conflict.incoming = incoming := by
  rcases conflict with ⟨member, existing, brought⟩
  cases resolution <;> simp [ofResolution, eq_comm, and_left_comm]

section Verdict

variable {origin begun : Store} {base : Value} {target : ObjectId} {source : ProcedureId}
  (mirrors : origin.Mirrors base target begun)

include mirrors

theorem clashes_iff_of_own {table : ObjectId} {name : String} {descriptor : Descriptor}
    {incoming existing : ProcedureId} (listed : name ∈ origin.sourceNames (.procedure source))
    (front : origin.front? (.procedure source) = some table)
    (owned : origin.ownDescriptor? table name = some descriptor)
    (method : descriptor.method? = some incoming) :
    origin.Clashes base (.procedure source) ⟨name, existing, incoming⟩ ↔
      begun.dataValue? target name = some (.procedure existing) ∧ existing ≠ incoming ∧
      origin.isRequired existing = false ∧ origin.isRequired incoming = false ∧
      origin.chainHolds (origin.sourceTables (.procedure source)) name (.procedure existing) =
        false ∧
      begun.inherits target name (.procedure incoming) = false := by
  rw [← Bool.not_eq_true (origin.chainHolds _ _ _), ← Bool.not_eq_true (begun.inherits _ _ _),
    Store.chainHolds_iff]
  constructor
  · rintro ⟨_, _, ⟨other, frontBase, resolved, unhidden⟩, different, implemented, untouched⟩
    refine ⟨(mirrors.resolves _ _).mpr ⟨other, frontBase, resolved⟩, different, implemented.1,
      implemented.2, ?_, ?_⟩
    · rintro ⟨chained, member, held⟩
      exact untouched chained member held
    · rw [mirrors.inherits other frontBase]
      rintro ⟨level, member, held⟩
      exact unhidden level member held
  · rintro ⟨current, different, there, brought, untouched, unhidden⟩
    rcases (mirrors.resolves _ _).mp current with ⟨other, frontBase, resolved⟩
    rw [mirrors.inherits other frontBase] at unhidden
    exact
      { listed
        brought := ⟨table, descriptor, front, owned, method⟩
        there := ⟨other, frontBase, resolved, fun level member held =>
          unhidden ⟨level, member, held⟩⟩
        different
        implemented := ⟨there, brought⟩
        untouched := fun chained member held => untouched ⟨chained, member, held⟩ }

variable (awaits : origin.Awaits target begun)
  (present : origin.Present (.procedure source)) (tables : origin.HasTablesOf (.procedure source))

include awaits present tables

theorem conflict_ofOffer_iff {name : String}
    (listed : name ∈ origin.sourceNames (.procedure source)) {conflict : Conflict} :
    (Verdict.ofOffer origin begun target ⟨.procedure source, name⟩).conflict = some conflict ↔
      conflict.member = name ∧ origin.Clashes base (.procedure source) conflict := by
  rcases conflict with ⟨member, existing, brought⟩
  cases front : origin.front? (.procedure source) with
  | none =>
      rw [Store.sourceNames_of_front?_eq_none front] at listed
      cases listed
  | some table =>
      have known := tables.front table front
      have shown := Store.sourceNames_of_front? front ▸ listed
      rcases Store.exists_lookup_of_mem_enumerableNames shown with ⟨owner, descriptor, found⟩
      cases method : descriptor.method? with
      | none =>
          rw [Verdict.ofOffer_of_value found front method]
          constructor
          · rintro ⟨⟩
          · rintro ⟨rfl, clashes⟩
            have holds := (clashes.own_of_lookup front found).2
            rw [method] at holds
            cases holds
      | some incoming =>
          have held : begun.chainHolds (origin.sourceTables (.procedure source)) name
              (.procedure incoming) = true := by
            rw [awaits.chainHolds_eq awaits.amid tables.tables (.refl ..), Store.chainHolds_iff]
            refine ⟨table, present.front_mem_sourceTables front, ?_⟩
            rw [Store.dataValue?, Store.descriptor?, found, Option.map_some, Option.bind_some,
              Descriptor.value?_of_method? method]
          rw [Verdict.ofOffer_of_method found front method, Verdict.conflict_ofResolution_iff,
            weighed_eq_conflict_iff held, awaits.amid.isRequired, awaits.amid.isRequired,
            awaits.chainHolds_eq awaits.amid tables.tables (.refl ..)]
          dsimp only
          have owned := (Store.ownDescriptor?_of_lookup found).2
          constructor
          · rintro ⟨⟨current, different, there, required, own, untouched, unhidden⟩, rfl, rfl⟩
            obtain rfl : owner = table := beq_iff_eq.mp own
            exact ⟨rfl, (clashes_iff_of_own mirrors listed front owned method).mpr
              ⟨current, different, there, required, untouched, unhidden⟩⟩
          · rintro ⟨rfl, clashes⟩
            rcases clashes.own_of_lookup front found with ⟨rfl, holds⟩
            obtain rfl : incoming = brought := Option.some.inj (method.symm.trans holds)
            rcases (clashes_iff_of_own mirrors listed front owned method).mp clashes with
              ⟨current, different, there, required, untouched, unhidden⟩
            exact ⟨⟨current, different, there, required, beq_self_eq_true _, untouched, unhidden⟩,
              rfl, rfl⟩

end Verdict

theorem Verdict.stored_of_conflict {origin begun : Store} {target : ObjectId} {offer : Offer}
    {conflict : Conflict} (held : (ofOffer origin begun target offer).conflict = some conflict) :
    ∃ descriptor, (ofOffer origin begun target offer).stored = some descriptor ∧
      descriptor.value? = some (.procedure conflict.incoming) := by
  unfold ofOffer at held ⊢
  split at held
  · cases held
  · next table owner descriptor _ =>
    split at held
    · cases held
    · next incoming method =>
      split at held
      · rcases conflict_ofResolution_iff.mp held with ⟨decided, _, rfl⟩
        simp only [decided]
        exact ⟨descriptor, rfl, Descriptor.value?_of_method? method⟩
      · split at held <;> cases held

end Merge

theorem sublist_members_filterMap {find? : String → Option Conflict}
    (about : ∀ name conflict, find? name = some conflict → conflict.member = name) :
    ∀ names : List String, ((names.filterMap find?).map Conflict.member).Sublist names
  | [] => .slnil
  | name :: names => by
      have rest := sublist_members_filterMap about names
      cases found : find? name with
      | none =>
          rw [List.filterMap_cons_none found]
          exact rest.cons name
      | some conflict =>
          rw [List.filterMap_cons_some found, List.map_cons, about name conflict found]
          exact rest.cons_cons name

namespace Composer

open Merge

variable (composer : Composer) (meaning : Meaning σ)

/-- Composing a base with a plain procedure or a type that shows no decorators succeeds under a
composer that only warns of conflicts. Exactly the clashes are reported, in the order in which
the names are enumerated, and the composition resolves each of them to the incoming method. -/
theorem reports_exactly_clashes (policy : composer.config.conflictPolicy = .warn) {base : Value}
    {source : ProcedureId} {world : World σ} (rooted : world.store.Rooted)
    (valid : base.isSource = true) (present : world.store.Present (.procedure source))
    (baseTables : world.store.HasTablesOf base)
    (tables : world.store.HasTablesOf (.procedure source))
    (undecorated : world.store.Undecorated (.procedure source))
    (raw : Definer.ReadsRaw meaning base world) :
    ∃ (type : ProcedureId) (composite : Composite) (later : World σ) (conflicts : List Conflict),
      (composer.compose meaning [base, .procedure source]).run world = (.ok type, later) ∧
      later.store.composite? type = some composite ∧
      later.store.journal.toList =
        world.store.journal.toList ++ conflicts.map (.conflict composer.observer) ∧
      (conflicts.map Conflict.member).Sublist (world.store.sourceNames (.procedure source)) ∧
      (∀ conflict, conflict ∈ conflicts ↔
        world.store.Clashes base (.procedure source) conflict) ∧
      ∀ conflict ∈ conflicts, later.store.dataValue? composite.prototype conflict.member =
        some (.procedure conflict.incoming) := by
  rcases Sources.exists_run_delegate valid rooted with ⟨target, store, delegates, awaits, adds⟩
  have mirrors := Sources.mirrors_of_run_delegate rooted baseTables delegates
  rcases raw with ⟨begun, read, same⟩
  rw [Action.run_bind_of_ok _ delegates] at read
  rw [delegates] at same
  obtain rfl : begun.store = store := same
  rcases composer.exists_makes_of_independent meaning policy
      (fun _ _ => List.cons_ne_nil _ _) valid delegates read awaits adds
      (List.forall_mem_singleton.mpr present) (List.forall_mem_singleton.mpr tables)
      (List.forall_mem_singleton.mpr undecorated) (List.pairwise_singleton _ _) with
    ⟨conflicts, after, partway, type, composite, later, ran, typed, owned, journal⟩
  have decided : conflicts = (world.store.sourceNames (.procedure source)).filterMap fun name =>
      (Verdict.ofOffer world.store begun.store target ⟨.procedure source, name⟩).conflict := by
    rw [partway.conflicts, Store.offers, List.flatMap_singleton, List.filterMap_map]
    rfl
  have held {conflict : Conflict} (member : conflict ∈ conflicts) :
      conflict.member ∈ world.store.sourceNames (.procedure source) ∧
        (Verdict.ofOffer world.store begun.store target
          ⟨.procedure source, conflict.member⟩).conflict = some conflict := by
    rw [decided] at member
    rcases List.mem_filterMap.mp member with ⟨name, listed, held⟩
    have about : conflict.member = name := Verdict.member_of_ofOffer held
    exact about ▸ ⟨listed, held⟩
  refine ⟨type, composite, later, conflicts, ran, typed, journal, ?_, fun conflict => ?_,
    fun conflict member => ?_⟩
  · rw [decided]
    exact sublist_members_filterMap (fun _ _ found => Verdict.member_of_ofOffer found) _
  · constructor
    · intro member
      exact ((conflict_ofOffer_iff mirrors awaits present tables (held member).1).mp
        (held member).2).2
    · intro clashes
      rw [decided]
      exact List.mem_filterMap.mpr ⟨conflict.member, clashes.listed,
        (conflict_ofOffer_iff mirrors awaits present tables clashes.listed).mpr ⟨rfl, clashes⟩⟩
  · rcases Verdict.stored_of_conflict (held member).2 with ⟨descriptor, stored, valued⟩
    have offered : ⟨.procedure source, conflict.member⟩ ∈
        world.store.offers [.procedure source] :=
      List.mem_flatMap.mpr ⟨_, List.mem_singleton_self _, List.mem_map_of_mem (held member).1⟩
    have own := (owned conflict.member).trans ((partway.stored _ offered).trans stored)
    rw [Store.dataValue?, Store.descriptor?_of_own own, Option.bind_some, valued]

/-- A plain procedure with three methods, and a type that has others under the same names, of
which the one it inherits from has had `b` from the first. -/
def overlappingMethods : World Unit where
  store := {
    objects := #[
      { members := .ofEntries [("c", .ofValue (.procedure ⟨3⟩)),
          ("b", .ofValue (.procedure ⟨1⟩)), ("a", .ofValue (.procedure ⟨2⟩))] },
      { members := .ofEntries [("b", .ofValue (.procedure ⟨1⟩))] },
      { parent := some ⟨1⟩
        members := .ofEntries [("a", .ofValue (.procedure ⟨4⟩)),
          ("b", .ofValue (.procedure ⟨5⟩)), ("c", .ofValue (.procedure ⟨6⟩))] }]
    procedures := #[
      { body := .required }, { body := .code ⟨0⟩ }, { body := .code ⟨0⟩ }, { body := .code ⟨0⟩ },
      { body := .code ⟨0⟩ }, { body := .code ⟨0⟩ }, { body := .code ⟨0⟩ },
      { body := .code ⟨0⟩, table := some ⟨0⟩ }, { body := .composite ⟨0⟩ }]
    composites := #[
      { procedure := ⟨8⟩, prototype := ⟨2⟩, bases := { prototypes := [⟨1⟩, ⟨2⟩] },
        composer := {} }] }
  state := ()

/-- What the type's own `b` meets is what it overrides, so that it does not clash. -/
theorem reports_clashes_but_overrides :
    ∃ conflicts : List Conflict,
      ((({} : Composer).compose (.ofBudget 1) [.procedure ⟨7⟩, .procedure ⟨8⟩]).run
        overlappingMethods).2.store.journal.toList =
          conflicts.map (.conflict ({} : Composer).observer) ∧
      (conflicts.map Conflict.member).Sublist ["a", "b", "c"] ∧
      ⟨"a", ⟨2⟩, ⟨4⟩⟩ ∈ conflicts ∧ ⟨"b", ⟨1⟩, ⟨5⟩⟩ ∉ conflicts := by
  have houses : overlappingMethods.store.Houses ⟨8⟩
      { procedure := ⟨8⟩, prototype := ⟨2⟩, bases := { prototypes := [⟨1⟩, ⟨2⟩] },
        composer := {} } :=
    ⟨rfl, by decide, by decide⟩
  have names : overlappingMethods.store.sourceNames (.procedure ⟨8⟩) = ["a", "b", "c"] := by
    decide +kernel
  have rooted : overlappingMethods.store.Rooted := Store.rooted_iff.mpr (by decide)
  have valid : (Value.procedure ⟨7⟩).isSource = true := rfl
  rcases reports_exactly_clashes {} (.ofBudget 1) rfl rooted valid (.type houses) (by decide)
    (by decide) (Store.undecorated_of_all (by decide) (.procedure ⟨8⟩)) ⟨_, rfl, rfl⟩ with
    ⟨_, _, later, conflicts, ran, _, journal, ordered, exactly, _⟩
  refine ⟨conflicts, ?_, names ▸ ordered, (exactly _).mpr ?_, fun member => ?_⟩
  · rw [ran]
    exact journal
  · exact
      { listed := by rw [names]; decide
        brought := ⟨⟨2⟩, .ofValue (.procedure ⟨4⟩), rfl, rfl, rfl⟩
        there := ⟨⟨0⟩, rfl, rfl, List.forall_mem_singleton.mpr (by rintro ⟨⟩)⟩
        different := by decide
        implemented := ⟨rfl, rfl⟩
        untouched := List.forall_mem_cons.mpr
          ⟨by rintro ⟨⟩, List.forall_mem_singleton.mpr (by rintro ⟨⟩)⟩ }
  · exact ((exactly _).mp member).untouched ⟨1⟩ (by decide) rfl

end Composer

end TraitComposition
