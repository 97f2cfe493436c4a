import TraitComposition.Proofs.Composition.Reporting
import TraitComposition.Proofs.Merge.Independence

/-!
Permutations of sources. Independent sources can be composed with a base in any order: the table
of the composition owns the same members, and the same conflicts are reported, in the order of
their sources.
-/
namespace TraitComposition

variable {σ : Type}

namespace Store

theorem Awaits.of_createObject {origin tabled : Store} (rooted : origin.Rooted)
    (adds : origin.OnlyAdds tabled)
    (procedures : ∀ reference, ∃ table,
      tabled.procedure reference = { origin.procedure reference with table := table })
    (tables : ∀ reference table, (tabled.procedure reference).table = some table →
      (origin.procedure reference).table = some table ∨
        tabled.hasObject table = true ∧ tabled.Blank table)
    (composites : tabled.composites = origin.composites) (parent : Option ObjectId) :
    origin.Awaits tabled.nextObject (tabled.createObject parent).2 where
  amid :=
    { changes := (adds.changesOnly _).trans (.of_createObject tabled parent _)
      known := hasObject_createObject_self tabled parent
      procedures := procedures
      tables := fun reference table made => by
        rcases tables reference table made with old | ⟨known, blank⟩
        · exact .inl old
        · have same := object_createObject_of_hasObject parent known
          refine .inr ⟨hasObject_createObject parent known, (nextObject_ne known).symm, ?_,
            fun name => ?_⟩
          · rw [Store.parent, same]
            exact blank.alone
          · rw [ownDescriptor?, members, same]
            exact blank.bare name
      composites := composites }
  rooted := rooted
  new := by
    cases had : origin.hasObject tabled.nextObject with
    | false => rfl
    | true =>
        have there := (adds.extends_.object _ had).1
        rw [hasObject_nextObject_eq_false] at there
        cases there
  empty name := by
    rw [ownDescriptor?, members, nextObject, object_createObject_self]
    exact MemberTable.find?_empty name

private theorem awaits_createObject {store : Store} (rooted : store.Rooted)
    (parent : Option ObjectId) :
    store.Awaits store.nextObject (store.createObject parent).2 :=
  .of_createObject rooted (.refl store) (fun _ => ⟨_, rfl⟩) (fun _ _ made => .inl made) rfl parent

private theorem awaits_prototypeOf {store : Store} (rooted : store.Rooted) (reference : ProcedureId)
    (parent : Option ObjectId) :
    store.Awaits (store.prototypeOf reference).2.nextObject
      ((store.prototypeOf reference).2.createObject parent).2 := by
  cases found : store.table? reference with
  | some table =>
      rw [prototypeOf_of_table? found]
      exact awaits_createObject rooted parent
  | none =>
      have adds := OnlyAdds.of_prototypeOf store reference
      have asked := (prototypeOf_of_table?_eq_none found).2
      have blank := (blank_prototypeOf_iff store reference).mpr
        (blank_of_not_hasObject (hasObject_nextObject_eq_false store))
      rw [asked] at adds blank ⊢
      refine .of_createObject rooted adds (fun other => ?_) (fun other table made => ?_) rfl parent
      · rw [procedure_updateProcedure]
        split
        · exact ⟨some store.nextObject, rfl⟩
        · exact ⟨_, rfl⟩
      · rw [procedure_updateProcedure] at made
        split at made
        · cases made
          exact .inr ⟨hasObject_createObject_self store none, blank⟩
        · exact .inl made

end Store

/-- A new object that delegates to a base awaits a merge, and nothing else has changed. -/
theorem Sources.exists_run_delegate {base : Value} (valid : base.isSource = true)
    {world : World σ} (rooted : world.store.Rooted) :
    ∃ target begun, (delegate base).run world = (.ok target, { world with store := begun }) ∧
      world.store.Awaits target begun ∧ world.store.OnlyAdds begun := by
  cases base with
  | procedure reference =>
      exact ⟨_, _, rfl, Store.awaits_prototypeOf rooted reference _,
        (Store.OnlyAdds.of_prototypeOf world.store reference).trans (.of_createObject _ _)⟩
  | object table =>
      exact ⟨_, _, rfl, Store.awaits_createObject rooted (some table), .of_createObject _ _⟩
  | _ => cases valid

/-- Whether the definitions that composing with a base makes are made directly: once the new
object is there, no definer is found, and the search leaves the store as it is. -/
def Definer.ReadsRaw (meaning : Meaning σ) (base : Value) (world : World σ) : Prop :=
  ∃ begun, (Sources.delegate base >>= fun _ => ofValue meaning base).run world =
      (.ok .raw, begun) ∧
    begun.store = ((Sources.delegate base : Action σ ObjectId).run world).2.store

namespace Composer

variable (composer : Composer) (meaning : Meaning σ)

/-- Whether a composition succeeds, its table owns what is given, and the given conflicts are
reported. -/
def Makes (sources : List Value) (world : World σ) (owned : String → Option Descriptor)
    (conflicts : List Conflict) : Prop :=
  ∃ type composite later, (composer.compose meaning sources).run world = (.ok type, later) ∧
    later.store.composite? type = some composite ∧
    (∀ name, later.store.ownDescriptor? composite.prototype name = owned name) ∧
    later.store.journal.toList =
      world.store.journal.toList ++ conflicts.map (.conflict composer.observer)

private theorem onlyAdds_enterType (sources : List Value) {prototype : ObjectId} {store : Store}
    (known : store.hasObject prototype = true) :
    store.OnlyAdds (composer.enterType sources prototype store).2 :=
  ((Store.Amid.refl known).spans_prototypes (chainSources prototype sources)).2.1.trans
    (.of_addComposite _ _ _ _)

theorem makes_of_run_composeTable {base : Value} {sources : List Value} {world reported : World σ}
    {prototype : ObjectId} {conflicts : List Conflict}
    (composable : ∀ source ∈ base :: sources, source.isSource = true)
    (ran : (composer.composeTable meaning base sources).run world = (.ok prototype, reported))
    (known : reported.store.hasObject prototype = true)
    (journal : reported.store.journal.toList =
      world.store.journal.toList ++ conflicts.map (.conflict composer.observer)) :
    composer.Makes meaning (base :: sources) world
      (reported.store.ownDescriptor? prototype) conflicts := by
  have valid : Sources.validate (base :: sources) 0 = .ok () :=
    Sources.validate_eq_ok (List.cons_ne_nil _ _) (fun source member =>
      Value.isSource_iff.mp (composable source member)) 0
  have entered := composer.onlyAdds_enterType (base :: sources) known
  have composed := run_compose meaning composer valid world
  rw [List.headD_cons, List.tail_cons, ran] at composed
  refine ⟨_, _, _, composed, composer.composite?_enterType _ _ _, fun name => ?_, ?_⟩
  · rw [Store.ownDescriptor?, entered.members_eq known]
    rfl
  · rw [entered.journal]
    exact journal

section Merging

variable {base : Value} {sources : List Value} {world : World σ}

theorem composeTable_of_merging (merges : ∀ table, base = .object table → sources ≠ []) :
    composer.composeTable meaning base sources = (do
      let target ← Sources.delegate base
      let definer ← Definer.ofValue meaning base
      composer.report (← mixin meaning target sources definer)
      return target) := by
  unfold composeTable
  split
  · next table => exact absurd rfl (merges table rfl)
  · rfl

variable {target : ObjectId} {delegated begun : World σ}

theorem exists_makes_of_independent (policy : composer.config.conflictPolicy = .warn)
    (merges : ∀ table, base = .object table → sources ≠ []) (valid : base.isSource = true)
    (delegates : (Sources.delegate base).run world = (.ok target, delegated))
    (read : (Definer.ofValue meaning base).run delegated = (.ok .raw, begun))
    (awaits : world.store.Awaits target begun.store) (adds : world.store.OnlyAdds begun.store)
    (present : ∀ source ∈ sources, world.store.Present source)
    (tables : ∀ source ∈ sources, world.store.HasTablesOf source)
    (undecorated : ∀ source ∈ sources, world.store.Undecorated source)
    (independent : sources.Pairwise world.store.Independent) :
    ∃ conflicts after,
      world.store.Partway target begun.store (world.store.offers sources) conflicts after ∧
      composer.Makes meaning (base :: sources) world (after.ownDescriptor? target) conflicts := by
  rcases exists_run_mixin meaning awaits present tables undecorated independent with
    ⟨conflicts, after, mixed, partway⟩
  have same := after.reportAll_eq composer.observer conflicts
  let reported : World σ := { begun with store := after.reportAll composer.observer conflicts }
  have accepted : composer.answer conflicts target = .ok target := by
    simp only [answer, refusal?, policy]
  have ran : (composer.composeTable meaning base sources).run world = (.ok target, reported) := by
    rw [composeTable_of_merging composer meaning merges, Action.run_bind_of_ok _ delegates,
      Action.run_bind_of_ok _ read, Action.run_bind_of_ok _ mixed, run_report_bind, accepted]
  have known : reported.store.hasObject target = true := by
    change (after.reportAll composer.observer conflicts).hasObject target = true
    rw [same]
    exact partway.amid.known
  have journal : reported.store.journal.toList =
      world.store.journal.toList ++ conflicts.map (.conflict composer.observer) := by
    change (after.reportAll composer.observer conflicts).journal.toList = _
    rw [Store.journal_reportAll, partway.confined.journal, adds.journal]
  have composable : ∀ source ∈ base :: sources, source.isSource = true := by
    rw [List.forall_mem_cons]
    refine ⟨valid, fun source member => ?_⟩
    cases present source member <;> rfl
  have owned : reported.store.ownDescriptor? target = after.ownDescriptor? target := by
    change (after.reportAll composer.observer conflicts).ownDescriptor? target = _
    rw [same]
    rfl
  have makes := composer.makes_of_run_composeTable meaning composable ran known journal
  rw [owned] at makes
  exact ⟨conflicts, after, partway, makes⟩

end Merging

/-- Independent sources can be composed with a base in any order. If neither of any two sources
has a table that resolves a name which the other one enumerates, none of them shows a decorator,
and definitions are made directly, then a composer that only warns of conflicts succeeds. However
the sources are permuted, it does so again, with the same descriptors under the same names in the
table, and the conflicts that are reported are the same, up to their order. -/
theorem makes_of_perm (policy : composer.config.conflictPolicy = .warn) {base : Value}
    {sources : List Value} {world : World σ} (rooted : world.store.Rooted)
    (valid : base.isSource = true) (present : ∀ source ∈ sources, world.store.Present source)
    (tables : ∀ source ∈ base :: sources, world.store.HasTablesOf source)
    (undecorated : ∀ source ∈ sources, world.store.Undecorated source)
    (raw : Definer.ReadsRaw meaning base world)
    (independent : sources.Pairwise world.store.Independent) :
    ∃ owned conflicts, composer.Makes meaning (base :: sources) world owned conflicts ∧
      ∀ permuted, permuted.Perm sources → ∃ reordered, reordered.Perm conflicts ∧
        composer.Makes meaning (base :: permuted) world owned reordered := by
  rw [List.forall_mem_cons] at tables
  by_cases merges : ∀ table, base = .object table → sources ≠ []
  · rcases Sources.exists_run_delegate valid rooted with ⟨target, store, delegates, awaits, adds⟩
    rcases raw with ⟨begun, read, same⟩
    rw [Action.run_bind_of_ok _ delegates] at read
    rw [delegates] at same
    obtain rfl : begun.store = store := same
    have makes {permuted : List Value} (reordered : permuted.Perm sources) :=
      composer.exists_makes_of_independent meaning policy
        (fun table bare none => merges table bare (List.perm_nil.mp (none ▸ reordered.symm)))
        valid delegates read awaits adds
        (fun source member => present source (reordered.mem_iff.mp member))
        (fun source member => tables.2 source (reordered.mem_iff.mp member))
        (fun source member => undecorated source (reordered.mem_iff.mp member))
        (reordered.symm.pairwise independent Store.Independent.symm)
    rcases makes (.refl sources) with ⟨conflicts, after, partway, first⟩
    refine ⟨_, conflicts, first, fun permuted reordered => ?_⟩
    rcases makes reordered with ⟨conflictsToo, afterToo, partwayToo, second⟩
    have offers := world.store.perm_offers reordered
    have owned := funext (partway.ownDescriptor?_eq partwayToo offers)
    rw [owned] at second
    exact ⟨conflictsToo, partway.perm_conflicts partwayToo offers, second⟩
  · -- A single bare table is the table of the composition.
    rcases Classical.not_forall.mp merges with ⟨table, single⟩
    rcases Classical.not_imp.mp single with ⟨rfl, none⟩
    obtain rfl : sources = [] := Classical.not_not.mp none
    have makes : composer.Makes meaning [.object table] world _ [] :=
      composer.makes_of_run_composeTable meaning (List.forall_mem_singleton.mpr valid) rfl
        (tables.1.front table rfl) (List.append_nil _).symm
    refine ⟨_, [], makes, fun permuted reordered => ⟨[], .refl [], ?_⟩⟩
    rw [List.perm_nil.mp reordered]
    exact makes

/-- A procedure with two methods, and three independent sources: a type with another method for
the one, a procedure with another for the other, and a bare table with a getter and a value. -/
def independentSources : World Unit where
  store := {
    objects := #[
      { members := .ofEntries [("a", .ofValue (.procedure ⟨1⟩)),
          ("b", .ofValue (.procedure ⟨2⟩))] },
      { members := .ofEntries [("a", .ofValue (.procedure ⟨3⟩))] },
      { members := .ofEntries [("b", .ofValue (.procedure ⟨4⟩))] },
      { members := .ofEntries [("c", ⟨.accessor (some ⟨1⟩) none, true, true⟩),
          ("d", .ofValue .null)] }]
    procedures := #[
      { body := .required }, { body := .code ⟨0⟩ }, { body := .code ⟨0⟩ }, { body := .code ⟨0⟩ },
      { body := .code ⟨0⟩ }, { body := .code ⟨0⟩, table := some ⟨0⟩ }, { body := .composite ⟨0⟩ },
      { body := .code ⟨0⟩, table := some ⟨2⟩ }]
    composites := #[
      { procedure := ⟨6⟩, prototype := ⟨1⟩, bases := { prototypes := [⟨1⟩] }, composer := {} }] }
  state := ()

theorem makes_of_reversed :
    ∃ owned conflicts, conflicts.length = 2 ∧
      ({} : Composer).Makes (.ofBudget 1)
        [.procedure ⟨5⟩, .procedure ⟨6⟩, .procedure ⟨7⟩, .object ⟨3⟩] independentSources owned
        conflicts ∧
      ∃ reordered, reordered.Perm conflicts ∧
        ({} : Composer).Makes (.ofBudget 1)
          [.procedure ⟨5⟩, .object ⟨3⟩, .procedure ⟨7⟩, .procedure ⟨6⟩] independentSources owned
          reordered := by
  have houses : independentSources.store.Houses ⟨6⟩
      { procedure := ⟨6⟩, prototype := ⟨1⟩, bases := { prototypes := [⟨1⟩] }, composer := {} } :=
    ⟨rfl, by decide, by decide⟩
  have present : ∀ source ∈ [Value.procedure ⟨6⟩, .procedure ⟨7⟩, .object ⟨3⟩],
      independentSources.store.Present source :=
    List.forall_mem_cons.mpr ⟨.type houses, List.forall_mem_cons.mpr ⟨.plain (by decide),
      List.forall_mem_singleton.mpr (.table (by decide))⟩⟩
  have tables : ∀ source ∈ [Value.procedure ⟨5⟩, .procedure ⟨6⟩, .procedure ⟨7⟩, .object ⟨3⟩],
      independentSources.store.HasTablesOf source :=
    List.forall_mem_cons.mpr ⟨by decide, List.forall_mem_cons.mpr ⟨by decide,
      List.forall_mem_cons.mpr ⟨by decide, List.forall_mem_singleton.mpr (by decide)⟩⟩⟩
  have undecorated (source : Value) : independentSources.store.Undecorated source :=
    Store.undecorated_of_all (by decide) source
  have reported : ((({} : Composer).compose (.ofBudget 1) [.procedure ⟨5⟩, .procedure ⟨6⟩,
      .procedure ⟨7⟩, .object ⟨3⟩]).run independentSources).2.store.journal.toList.length = 2 := by
    decide +kernel
  rcases makes_of_perm {} (.ofBudget 1) rfl (Store.rooted_iff.mpr (by decide)) rfl present tables
    (fun source _ => undecorated source) ⟨_, rfl, rfl⟩ (by decide) with
    ⟨owned, conflicts, makes, others⟩
  have reversed : [Value.object ⟨3⟩, .procedure ⟨7⟩, .procedure ⟨6⟩].Perm
      [.procedure ⟨6⟩, .procedure ⟨7⟩, .object ⟨3⟩] :=
    List.reverse_perm [Value.procedure ⟨6⟩, Value.procedure ⟨7⟩, Value.object ⟨3⟩]
  refine ⟨owned, conflicts, ?_, makes, others _ reversed⟩
  rcases makes with ⟨_, _, later, ran, _, _, journal⟩
  rw [ran] at reported
  rw [journal, List.length_append, List.length_map] at reported
  exact (Nat.zero_add _).symm.trans reported

end Composer

end TraitComposition
