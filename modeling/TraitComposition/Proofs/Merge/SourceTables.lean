import TraitComposition.Proofs.Merge.Unattended
import TraitComposition.Proofs.Store.Additions

/-!
The tables of sources while a merge is underway. All that a merge changes, apart from its
destination, are procedures that had no table and are given one, in which nothing is ever
stored. So whatever tables are asked for on the way, they are those that the sources had when
the merge began, and vacant ones.
-/
namespace TraitComposition.Store

/-! ### Tables that are there

A plain procedure is given its table when it is first asked for it. A source contributes the
tables that are there by then. -/

def table? (store : Store) (reference : ProcedureId) : Option ObjectId :=
  match (store.procedure reference).body with
  | .composite type => some (((store.composite type).map Composite.prototype).getD ⟨0⟩)
  | .constructible _ prototype _ => some prototype
  | _ => (store.procedure reference).table

def front? (store : Store) : Value → Option ObjectId
  | .procedure procedure => store.table? procedure
  | .object table => some table
  | _ => none

def sourceTables (store : Store) : Value → List ObjectId
  | .procedure procedure =>
      match store.bases? procedure with
      | some bases => bases.prototypes
      | none => (store.table? procedure).toList
  | .object table => [table]
  | _ => []

def sourceNames (store : Store) (source : Value) : List String :=
  ((store.front? source).map store.enumerableNames).getD []

structure HasTablesOf (store : Store) (source : Value) : Prop where
  front : ∀ table, store.front? source = some table → store.hasObject table = true
  tables : ∀ table ∈ store.sourceTables source, store.hasObject table = true

private theorem hasTablesOf_iff {store : Store} {source : Value} :
    store.HasTablesOf source ↔
      (store.front? source).all store.hasObject = true ∧
        (store.sourceTables source).all store.hasObject = true := by
  rw [Option.all_eq_true, List.all_eq_true]
  exact ⟨fun has => ⟨has.front, has.tables⟩, fun both => ⟨both.1, both.2⟩⟩

instance (store : Store) (source : Value) : Decidable (store.HasTablesOf source) :=
  decidable_of_iff' _ hasTablesOf_iff

section Asking

variable {store : Store} {reference : ProcedureId}

theorem prototypeOf_of_table? {table : ObjectId} (found : store.table? reference = some table) :
    store.prototypeOf reference = (table, store) := by
  unfold table? at found
  unfold prototypeOf
  cases body : (store.procedure reference).body <;> simp_all

theorem prototypeOf_of_table?_eq_none (missing : store.table? reference = none) :
    (store.procedure reference).table = none ∧
      store.prototypeOf reference =
        (store.nextObject,
          (store.createObject none).2.updateProcedure reference fun procedure =>
            { procedure with table := some store.nextObject }) := by
  unfold table? at missing
  unfold prototypeOf
  cases body : (store.procedure reference).body <;> simp_all [nextObject, createObject, addObject]

theorem Fronts.front?_eq {source : Value} {table : ObjectId} (fronts : store.Fronts source table) :
    store.front? source = some table := by
  cases fronts with
  | type houses =>
      rcases body_of_composite? houses.found with ⟨type, body, found⟩
      rw [front?, table?, body]
      simp only [found, Option.map_some, Option.getD_some]
  | @plain reference _ plain made =>
      unfold isPlain at plain
      rw [front?, table?]
      split <;> simp_all
  | table => rfl

variable {bases : Bases}

theorem sourceTables_of_bases? (flattened : store.bases? reference = some bases) :
    store.sourceTables (.procedure reference) = bases.prototypes := by
  rw [sourceTables, flattened]

theorem sourceTables_of_bases?_eq_none (plain : store.bases? reference = none) :
    store.sourceTables (.procedure reference) = (store.table? reference).toList := by
  rw [sourceTables, plain]

private theorem sourcePrototypes_of_bases? (flattened : store.bases? reference = some bases) :
    sourcePrototypes (.procedure reference) store = (bases.prototypes, store) := by
  rw [sourcePrototypes, flattened]

private theorem sourcePrototypes_of_bases?_eq_none (plain : store.bases? reference = none) :
    sourcePrototypes (.procedure reference) store =
      ([(store.prototypeOf reference).1], (store.prototypeOf reference).2) := by
  rw [sourcePrototypes, plain]

end Asking

/-! ### Vacant tables

A table that is made amid a merge has nothing in it. A list of tables spans another one if it is
that list with such tables added. -/

theorem Blank.descriptor?_eq_none {store : Store} {object : ObjectId}
    (blank : store.Blank object) (name : String) : store.descriptor? object name = none := by
  have levels : store.ancestry object = [object] := by
    rw [ancestry, ancestryWithin, blank.alone]
  rw [descriptor?_eq_findSome?, levels, List.findSome?_cons, blank.bare]
  rfl

structure Vacant (store : Store) (target table : ObjectId) : Prop where
  known : store.hasObject table = true
  apart : table ≠ target
  blank : store.Blank table

theorem Vacant.later {before after : Store} {target table : ObjectId}
    (vacant : before.Vacant target table) (changes : ChangesOnly target before after) :
    after.Vacant target table where
  known := (changes.extends_.object table vacant.known).1
  apart := vacant.apart
  blank :=
    { alone := (changes.extends_.object table vacant.known).2.trans vacant.blank.alone
      bare := fun name => by
        rw [ownDescriptor?, changes.members table vacant.known vacant.apart]
        exact vacant.blank.bare name }

structure Spans (store : Store) (target : ObjectId) (tables chain : List ObjectId) : Prop where
  listed : ∀ table ∈ tables, table ∈ chain
  rest : ∀ table ∈ chain, table ∈ tables ∨ store.Vacant target table

namespace Spans

variable {store : Store} {target : ObjectId} {tables chain : List ObjectId}

theorem refl (store : Store) (target : ObjectId) (tables : List ObjectId) :
    store.Spans target tables tables where
  listed _ member := member
  rest _ member := .inl member

theorem later {after : Store} (spans : store.Spans target tables chain)
    (changes : ChangesOnly target store after) : after.Spans target tables chain where
  listed := spans.listed
  rest table member := (spans.rest table member).imp_right fun vacant => vacant.later changes

private theorem append {more further : List ObjectId} (spans : store.Spans target tables chain)
    (also : store.Spans target more further) :
    store.Spans target (tables ++ more) (chain ++ further) where
  listed table member :=
    List.mem_append.mpr ((List.mem_append.mp member).imp (spans.listed table) (also.listed table))
  rest table member := by
    rcases List.mem_append.mp member with member | member
    · exact (spans.rest table member).imp_left (List.mem_append_left more)
    · exact (also.rest table member).imp_left (List.mem_append_right tables)

private theorem ofList (spans : store.Spans target tables chain) :
    store.Spans target tables (FirstSeen.ofList chain) where
  listed table member := FirstSeen.mem_ofList.mpr (spans.listed table member)
  rest table member := spans.rest table (FirstSeen.mem_ofList.mp member)

theorem chainHolds_eq (spans : store.Spans target tables chain) (name : String) (method : Value) :
    store.chainHolds chain name method = store.chainHolds tables name method := by
  rw [Bool.eq_iff_iff, chainHolds, chainHolds, List.any_eq_true, List.any_eq_true]
  constructor
  · rintro ⟨table, member, holds⟩
    rcases spans.rest table member with member | vacant
    · exact ⟨table, member, holds⟩
    · rw [dataValue?, vacant.blank.descriptor?_eq_none] at holds
      cases holds
  · rintro ⟨table, member, holds⟩
    exact ⟨table, spans.listed table member, holds⟩

end Spans

/-! ### Amid a merge -/

structure Amid (start : Store) (target : ObjectId) (now : Store) : Prop where
  changes : ChangesOnly target start now
  known : now.hasObject target = true
  procedures : ∀ reference, ∃ table,
    now.procedure reference = { start.procedure reference with table := table }
  tables : ∀ reference table, (now.procedure reference).table = some table →
    (start.procedure reference).table = some table ∨ now.Vacant target table
  composites : now.composites = start.composites

namespace Amid

variable {start now after : Store} {target : ObjectId}

theorem refl (known : start.hasObject target = true) : Amid start target start where
  changes := .refl target start
  known := known
  procedures _ := ⟨_, rfl⟩
  tables _ _ made := .inl made
  composites := rfl

theorem trans (first : Amid start target now) (rest : Amid now target after) :
    Amid start target after where
  changes := first.changes.trans rest.changes
  known := rest.known
  procedures reference := by
    rcases first.procedures reference with ⟨made, same⟩
    rcases rest.procedures reference with ⟨table, later⟩
    exact ⟨table, by rw [later, same]⟩
  tables reference table made := by
    rcases rest.tables reference table made with made | vacant
    · exact (first.tables reference table made).imp_right fun old => old.later rest.changes
    · exact .inr vacant
  composites := rest.composites.trans first.composites

section Later

variable (amid : Amid start target now)

include amid

theorem later (changes : ChangesOnly target now after)
    (procedures : after.procedures = now.procedures)
    (composites : after.composites = now.composites) : Amid start target after := by
  have same (reference : ProcedureId) : after.procedure reference = now.procedure reference := by
    rw [Store.procedure, Store.procedure, procedures]
  exact
    { changes := amid.changes.trans changes
      known := (changes.extends_.object target amid.known).1
      procedures := fun reference => by
        rw [same]
        exact amid.procedures reference
      tables := fun reference table made => by
        rw [same] at made
        exact (amid.tables reference table made).imp_right fun vacant => vacant.later changes
      composites := composites.trans amid.composites }

theorem storeMember (name : String) (descriptor : Descriptor) :
    Amid start target (now.storeMember target name descriptor) :=
  amid.later (.of_storeMember now target name descriptor) rfl rfl

/-! What a procedure is stays as it was. -/

private theorem body (reference : ProcedureId) :
    (now.procedure reference).body = (start.procedure reference).body := by
  rcases amid.procedures reference with ⟨table, same⟩
  rw [same]

theorem hook (reference : ProcedureId) :
    (now.procedure reference).hook = (start.procedure reference).hook := by
  rcases amid.procedures reference with ⟨table, same⟩
  rw [same]

theorem isRequired (reference : ProcedureId) :
    now.isRequired reference = start.isRequired reference := by
  rw [Store.isRequired, Store.isRequired, amid.body]

private theorem composite (reference : CompositeId) :
    now.composite reference = start.composite reference := by
  rw [Store.composite, Store.composite, amid.composites]

private theorem bases? (reference : ProcedureId) :
    now.bases? reference = start.bases? reference := by
  unfold Store.bases?
  simp only [amid.body reference, amid.composite]

theorem table?_cases (reference : ProcedureId) :
    now.table? reference = start.table? reference ∨
      start.table? reference = none ∧
        ∃ table, now.table? reference = some table ∧ now.Vacant target table := by
  have own : (now.procedure reference).table = (start.procedure reference).table ∨
      (start.procedure reference).table = none ∧
        ∃ table, (now.procedure reference).table = some table ∧ now.Vacant target table := by
    cases had : (start.procedure reference).table with
    | some table =>
        have known : start.hasProcedure reference = true := by
          cases known : start.hasProcedure reference with
          | true => rfl
          | false =>
              rw [procedure_of_not_hasProcedure known] at had
              cases had
        rcases (amid.changes.extends_.procedure reference known).2 with ⟨made, same, keeps⟩
        rw [same]
        exact .inl (keeps table had)
    | none =>
        cases has : (now.procedure reference).table with
        | none => exact .inl rfl
        | some table =>
            rcases amid.tables reference table has with old | vacant
            · rw [had] at old
              cases old
            · exact .inr ⟨rfl, table, rfl, vacant⟩
  unfold table?
  simp only [amid.body reference, amid.composite]
  split
  · exact .inl rfl
  · exact .inl rfl
  · exact own

end Later

section Asking

variable (amid : Amid start target now) (reference : ProcedureId)

include amid

private theorem vacant_nextObject_prototypeOf (missing : now.table? reference = none) :
    (now.prototypeOf reference).2.Vacant target now.nextObject where
  known := by
    rw [(prototypeOf_of_table?_eq_none missing).2]
    exact hasObject_createObject_self now none
  apart := nextObject_ne amid.known
  blank := (blank_prototypeOf_iff now reference).mpr
    (blank_of_not_hasObject (hasObject_nextObject_eq_false now))

theorem prototypeOf : Amid start target (now.prototypeOf reference).2 := by
  cases found : now.table? reference with
  | some table =>
      rw [prototypeOf_of_table? found]
      exact amid
  | none =>
      have changes := ChangesOnly.of_prototypeOf now reference target
      have vacant := amid.vacant_nextObject_prototypeOf reference found
      rw [(prototypeOf_of_table?_eq_none found).2] at changes vacant ⊢
      refine
        { changes := amid.changes.trans changes
          known := (changes.extends_.object target amid.known).1
          procedures := fun other => ?_
          tables := fun other table made => ?_
          composites := amid.composites }
      · rcases amid.procedures other with ⟨table, same⟩
        rw [procedure_updateProcedure]
        split
        · exact ⟨some now.nextObject, congrArg
            (fun found => ({ found with table := some now.nextObject } : Procedure)) same⟩
        · exact ⟨table, same⟩
      · rw [procedure_updateProcedure] at made
        split at made
        · cases made
          exact .inr vacant
        · exact (amid.tables other table made).imp_right fun old => old.later changes

theorem prototypeOf_cases :
    start.table? reference = some (now.prototypeOf reference).1 ∨
      start.table? reference = none ∧
        (now.prototypeOf reference).2.Vacant target (now.prototypeOf reference).1 := by
  rcases amid.table?_cases reference with same | ⟨missing, table, found, vacant⟩
  · cases had : start.table? reference with
    | some table => rw [prototypeOf_of_table? (same.trans had)]; exact .inl rfl
    | none =>
        have fresh := amid.vacant_nextObject_prototypeOf reference (same.trans had)
        rw [(prototypeOf_of_table?_eq_none (same.trans had)).2] at fresh ⊢
        exact .inr ⟨rfl, fresh⟩
  · rw [prototypeOf_of_table? found]
    exact .inr ⟨missing, vacant⟩

end Asking

/-! ### Chains of tables -/

theorem spans_sourcePrototypes (amid : Amid start target now) (source : Value) :
    Amid start target (sourcePrototypes source now).2 ∧
      now.OnlyAdds (sourcePrototypes source now).2 ∧
      (sourcePrototypes source now).2.Spans target (start.sourceTables source)
        (sourcePrototypes source now).1 := by
  cases source with
  | procedure reference =>
      have same := amid.bases? reference
      cases flattened : start.bases? reference with
      | some bases =>
          rw [sourcePrototypes_of_bases? (same.trans flattened), sourceTables_of_bases? flattened]
          exact ⟨amid, .refl now, .refl now target _⟩
      | none =>
          rw [sourcePrototypes_of_bases?_eq_none (same.trans flattened),
            sourceTables_of_bases?_eq_none flattened]
          refine ⟨amid.prototypeOf reference, .of_prototypeOf now reference, ?_⟩
          rcases amid.prototypeOf_cases reference with found | ⟨missing, vacant⟩
          · rw [found]
            exact .refl _ target _
          · rw [missing]
            refine ⟨List.forall_mem_nil _, fun table member => ?_⟩
            rw [List.mem_singleton.mp member]
            exact .inr vacant
  | object table => exact ⟨amid, .refl now, .refl now target _⟩
  | _ => exact ⟨amid, .refl now, .refl now target _⟩

private theorem spans_allPrototypes (amid : Amid start target now) (sources : List Value) :
    Amid start target (allPrototypes sources now).2 ∧
      now.OnlyAdds (allPrototypes sources now).2 ∧
      (allPrototypes sources now).2.Spans target (sources.flatMap start.sourceTables)
        (allPrototypes sources now).1 := by
  induction sources generalizing now with
  | nil =>
      exact ⟨amid, .refl now, List.forall_mem_nil _, List.forall_mem_nil _⟩
  | cons source sources induction =>
      rcases amid.spans_sourcePrototypes source with ⟨between, first, spans⟩
      rcases induction between with ⟨reached, rest, spansRest⟩
      rw [allPrototypes, List.flatMap_cons]
      exact ⟨reached, first.trans rest, (spans.later (rest.changesOnly target)).append spansRest⟩

theorem spans_prototypes (amid : Amid start target now) (sources : List Value) :
    Amid start target (prototypes sources now).2 ∧
      now.OnlyAdds (prototypes sources now).2 ∧
      (prototypes sources now).2.Spans target (sources.flatMap start.sourceTables)
        (prototypes sources now).1 := by
  rcases amid.spans_allPrototypes sources with ⟨reached, adds, spans⟩
  exact ⟨reached, adds, spans.ofList⟩

end Amid

end TraitComposition.Store

namespace TraitComposition.Merge

/-- Two different methods are weighed by the tables that the sources had when the merge began,
and vacant ones. -/
theorem exists_run_weigh_spanning {σ : Type} (plan : Plan) {start : Store} {world : World σ}
    (amid : Store.Amid start plan.target world.store) (index : Nat) (name : String) (own : Bool)
    (ownChain : List ObjectId) {incoming existing : ProcedureId} (different : existing ≠ incoming) :
    ∃ (asked : Store) (earlier throughThis : List ObjectId),
      (weigh plan index name own incoming ownChain (some (.procedure existing))).run world =
        (.ok (Rivalry.resolve ⟨name, incoming, existing, own, ownChain⟩ asked plan.target earlier
          throughThis), { world with store := asked }) ∧
      Store.Amid start plan.target asked ∧ world.store.OnlyAdds asked ∧
      asked.Spans plan.target ((plan.sources.take index).flatMap start.sourceTables) earlier ∧
      asked.Spans plan.target ((plan.sources.take (index + 1)).flatMap start.sourceTables)
        throughThis := by
  rcases amid.spans_prototypes (plan.sources.take index) with ⟨between, first, spans⟩
  rcases between.spans_prototypes (plan.sources.take (index + 1)) with ⟨asked, second, spansThis⟩
  refine ⟨_, _, _, ?_, asked, first.trans second, spans.later (second.changesOnly _), spansThis⟩
  rw [weigh, if_neg different]
  rfl

end TraitComposition.Merge
