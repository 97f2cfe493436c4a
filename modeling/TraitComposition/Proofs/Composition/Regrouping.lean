import TraitComposition.Proofs.Composition.Construction
import TraitComposition.Proofs.Composition.Reporting
import TraitComposition.Proofs.Merge.BareTables

/-!
Regrouping bare tables. Composing a type with bare tables at once, or extending it with one
group of them after the other, comes to the same: in one merge a name that comes again is
assigned where it is, in several it hides what was inherited, but what it resolves to is the
holding that the tables, in order, make of what the type held.
-/
namespace TraitComposition

variable {σ : Type}

def Composite.extendInTurn (meaning : Meaning σ) :
    List (List Value) → ProcedureId → Action σ ProcedureId
  | [], type => return type
  | group :: groups, type => do
      match (← Action.getStore).composite? type with
      | some composite => extendInTurn meaning groups (← composite.extend meaning group)
      | none => return type

/-! ### Sources -/

namespace Store

variable {store : Store} {type : ProcedureId} {composite : Composite}
  (found : store.composite? type = some composite)

include found

theorem constructors_of_tables (tables : List ObjectId) :
    store.constructors (.procedure type :: tables.map .object) =
      FirstSeen.ofList composite.bases.constructors := by
  have none : (tables.map Value.object).flatMap store.sourceConstructors = [] := by
    induction tables with
    | nil => rfl
    | cons table tables induction => exact induction
  rw [constructors, List.flatMap_cons, none, List.append_nil,
    sourceConstructors_of_composite? found]

theorem settled_of_tables (prototype : ObjectId) (tables : List ObjectId) :
    store.Settled (Composer.chainSources prototype (.procedure type :: tables.map .object)) := by
  intro source member
  rcases Composer.mem_chainSources member with rfl | member
  · rfl
  rcases List.mem_cons.mp member with rfl | member
  · rw [sourcePrototypes_of_composite? found]
  · rcases List.mem_map.mp member with ⟨table, _, rfl⟩
    rfl

end Store

/-! ### Types -/

/-- Whether a type was reached, with nothing changed that was there at the start: it has
some constructors, and its table resolves every name to a holding. -/
structure Composite.Reached (start now : Store) (type : ProcedureId) (built : Composite)
    (constructors : List ProcedureId) (holding : String → Holding) : Prop where
  adds : start.OnlyAdds now
  found : now.composite? type = some built
  itself : built.procedure = type
  raw : built.definer = none
  constructors : built.bases.constructors = constructors
  known : now.hasObject built.prototype = true
  holds : ∀ name, now.Holds built.prototype name (holding name)

namespace Composite.Reached

variable {start now later : Store} {type : ProcedureId} {built : Composite}
  {constructors : List ProcedureId} {holding : String → Holding}

private theorem added (reached : Reached start now type built constructors holding)
    (adds : now.OnlyAdds later) (rooted : now.Rooted) :
    Reached start later type built constructors holding :=
  { reached with
    adds := reached.adds.trans adds
    found := adds.types type built reached.found
    known := (adds.extends_.object _ reached.known).1
    holds := fun name => (reached.holds name).of_descriptor?_eq adds.extends_
      (adds.descriptor?_eq rooted reached.known name) }

theorem takes_delegating (reached : Reached start now type built constructors holding)
    (rooted : now.Rooted) :
    start.Takes (now.delegating built.prototype) now.nextObject holding := by
  have table := Store.AddsTable.of_delegating reached.known
  have unowned := now.ownDescriptor?_delegating_nextObject built.prototype
  refine
    { adds := reached.adds.trans (.of_delegating now built.prototype)
      new := ?_
      known := table.hasObject_nextObject
      plain := fun name descriptor owned => ?_
      holds := fun name => (reached.holds name).of_descriptor?_eq table.changes.extends_
        (table.descriptor?_nextObject rooted reached.known (unowned name)) }
  · cases there : start.hasObject now.nextObject with
    | false => rfl
    | true =>
        have kept := (reached.adds.extends_.object _ there).1
        rw [now.hasObject_nextObject_eq_false] at kept
        cases kept
  · rw [unowned name] at owned
    cases owned

theorem of_enterType {target : ObjectId} (takes : start.Takes now target holding)
    (rooted : now.Rooted) (found : now.composite? type = some built)
    (unique : built.bases.constructors.Nodup) (composer : Composer) (tables : List ObjectId) :
    ∃ next, Reached start (composer.enterType (.procedure type :: tables.map .object) target now).2
      (composer.enterType (.procedure type :: tables.map .object) target now).1 next
      built.bases.constructors holding := by
  have entered := composer.enterType_of_settled (.procedure type :: tables.map .object) target
    (Store.settled_of_tables found target tables)
  have adds : now.OnlyAdds
      (composer.enterType (.procedure type :: tables.map .object) target now).2 := by
    rw [entered]
    exact .of_addComposite _ _ _ _
  exact ⟨_,
    { adds := takes.adds.trans adds
      found := composer.composite?_enterType _ target now
      itself := rfl
      raw := rfl
      constructors := by
        dsimp only
        rw [Store.constructors_of_tables found, FirstSeen.ofList_eq_self unique]
      known := (adds.extends_.object _ takes.known).1
      holds := fun name => (takes.holds name).of_descriptor?_eq adds.extends_
        (adds.descriptor?_eq rooted takes.known name) }⟩

end Composite.Reached

/-! ### Compositions -/

section Composing

variable {meaning : Meaning σ} (evolving : meaning.Evolving) {world now : World σ}
  (rooted : world.store.Rooted) (evolution : (Passage.evolution σ).leads world now)
  {type : ProcedureId} {built : Composite} {constructors : List ProcedureId}
  {holding : String → Holding}
  (reached : Composite.Reached world.store now.store type built constructors holding)
  (unique : constructors.Nodup) {tables : List ObjectId}
  (bare : ∀ table ∈ tables, Store.Bare meaning world table)
  (ready : ∀ table ∈ tables, ∀ name, world.store.Advises table name →
    (holding name).Ready meaning world)

include evolving rooted evolution reached bare ready

theorem Composer.exists_run_composeTable_of_tables (composer : Composer) :
    ∃ later, (composer.composeTable meaning.step (.procedure type) (tables.map .object)).run now =
        (.ok now.store.nextObject, later) ∧
      world.store.Takes later.store now.store.nextObject fun name =>
        world.store.meetTables name (holding name) tables := by
  have takes := reached.takes_delegating (reached.adds.rooted rooted)
  have delegated := Sources.run_delegate_of_type reached.found
  have delegating := Sources.evolving_delegate (.procedure type) now
  rw [delegated] at delegating
  have definer := Definer.run_ofValue_of_type meaning.step
    { now with store := now.store.delegating built.prototype }
    ((Store.OnlyAdds.of_delegating now.store built.prototype).types _ _ reached.found) reached.raw
  let plan : Merge.Plan := ⟨now.store.nextObject, .raw, tables.map .object⟩
  have destination : world.store.Takes (now.store.delegating built.prototype) plan.target
    holding := takes
  rcases Merge.exists_run_meetTables evolving rooted rfl tables 0
    ((Passage.evolution σ).trans evolution delegating) destination bare ready with
    ⟨later, ran, _, takesThen⟩
  refine ⟨later, ?_, takesThen⟩
  rw [composeTable_procedure, Action.run_bind_of_ok _ delegated, Action.run_bind_of_ok _ definer,
    mixin, Action.run_bind_of_ok _ ran, run_report_bind, answer_nil]
  rfl

include unique

theorem Composer.exists_run_compose_of_tables (composer : Composer) :
    ∃ next later builtNext,
      (composer.compose meaning.step (.procedure type :: tables.map .object)).run now =
        (.ok next, later) ∧
      (Passage.evolution σ).leads world later ∧
      Composite.Reached world.store later.store next builtNext constructors fun name =>
        world.store.meetTables name (holding name) tables := by
  rcases exists_run_composeTable_of_tables evolving rooted evolution reached bare ready composer
    with ⟨merged, ranTable, takes⟩
  have valid : Sources.validate (.procedure type :: tables.map .object) 0 = .ok () := by
    refine Sources.validate_eq_ok (List.cons_ne_nil _ _) (fun source member => ?_) 0
    rcases List.mem_cons.mp member with rfl | member
    · exact .inl ⟨type, rfl⟩
    · rcases List.mem_map.mp member with ⟨table, _, rfl⟩
      exact .inr ⟨table, rfl⟩
  have ran := run_compose meaning.step composer valid now
  rw [List.headD_cons, List.tail_cons, ranTable] at ran
  have composing := composer.evolving_compose evolving.step
    (.procedure type :: tables.map .object) now
  rw [ran] at composing
  have merging := composer.evolving_composeTable evolving.step (.procedure type)
    (tables.map .object) now
  rw [ranTable] at merging
  rcases merging.1.extends.composite? reached.found with ⟨definer, kept⟩
  rcases Composite.Reached.of_enterType takes (takes.adds.rooted rooted) kept
    (reached.constructors.symm ▸ unique) composer tables with ⟨next, entered⟩
  exact ⟨_, _, next, ran, (Passage.evolution σ).trans evolution composing,
    reached.constructors ▸ entered⟩

omit bare ready evolution reached in
theorem Composite.exists_run_extendInTurn :
    ∀ (groups : List (List ObjectId)) {now : World σ} {type : ProcedureId} {built : Composite}
      {holding : String → Holding},
      (Passage.evolution σ).leads world now →
      Reached world.store now.store type built constructors holding →
      (∀ table ∈ groups.flatten, Store.Bare meaning world table) →
      (∀ table ∈ groups.flatten, ∀ name, world.store.Advises table name →
        (holding name).Ready meaning world) →
      ∃ last later builtLast,
        (extendInTurn meaning.step (groups.map (·.map .object)) type).run now = (.ok last, later) ∧
        Reached world.store later.store last builtLast constructors fun name =>
          world.store.meetTables name (holding name) groups.flatten
  | [], now, type, built, holding, _, reached, _, _ => ⟨type, now, built, rfl, reached⟩
  | group :: groups, now, type, built, holding, evolution, reached, bare, ready => by
      rw [List.flatten_cons] at bare ready
      have first (table : ObjectId) (member : table ∈ group) :=
        bare table (List.mem_append_left _ member)
      rcases Composer.exists_run_compose_of_tables evolving rooted evolution reached unique first
        (fun table member => ready table (List.mem_append_left _ member)) built.composer with
        ⟨next, between, builtNext, ran, onward, reachedNext⟩
      rcases exists_run_extendInTurn groups onward reachedNext
        (fun table member => bare table (List.mem_append_right _ member))
        (fun table member name advises =>
          (ready table (List.mem_append_right _ member) name advises).meetTables first) with
        ⟨last, later, builtLast, ranRest, reachedLast⟩
      refine ⟨last, later, builtLast, ?_, ?_⟩
      · rw [← reached.itself] at ran
        rw [List.map_cons, extendInTurn, Action.run_getStore_bind, reached.found]
        exact (Action.run_bind_of_ok _ ran).trans ranRest
      · simpa only [List.flatten_cons, Store.meetTables_append] using reachedLast

end Composing

/-! ### Both ways -/

namespace Composer

open CompositionTree (Grown)

/-- A type is composed with bare tables, or extended with one group of them after the other,
be it right away or with nothing changed meanwhile. Both succeed without a conflict, with the
same constructors, and what they come to has the same enumerable names and resolves every
name alike. -/
theorem compose_matches_extendInTurn {world start : World σ} {first : ProcedureId}
    {ingredients : List CompositionTree} {type : Composite}
    (grown : (CompositionTree.composite first ingredients).Grown world)
    (found : world.store.composite? first = some type) (raw : type.definer = none)
    (rooted : world.store.Rooted) (evolution : (Passage.evolution σ).leads world start)
    (adds : world.store.OnlyAdds start.store) (budget : Nat) (groups : List (List ObjectId))
    (bare : ∀ table ∈ groups.flatten, Store.Bare (.ofBudget budget) world table)
    (ready : ∀ table ∈ groups.flatten, ∀ name, world.store.Advises table name →
      (Holding.ofDescriptor? (world.store.descriptor? type.prototype name)).Ready
        (.ofBudget budget) world) (composer : Composer) :
    ∃ whole last after final composed extended,
      (composer.compose (.ofBudget (budget + 1))
        (.procedure first :: groups.flatten.map .object)).run world = (.ok whole, after) ∧
      (Composite.extendInTurn (.ofBudget (budget + 1)) (groups.map (·.map .object)) first).run
        start = (.ok last, final) ∧
      after.store.journal = world.store.journal ∧ final.store.journal = start.store.journal ∧
      after.store.composite? whole = some composed ∧
      final.store.composite? last = some extended ∧
      composed.bases.constructors = extended.bases.constructors ∧
      ∀ name,
        (name ∈ after.store.enumerableNames composed.prototype ↔
          name ∈ final.store.enumerableNames extended.prototype) ∧
        after.store.Alike composed.prototype final.store extended.prototype name := by
  have evolving : (Meaning.ofBudget budget : Meaning σ).Evolving := Meaning.evolving_ofBudget budget
  rcases grown.flattened with ⟨_, foundThen, itself, _⟩
  rcases grown.standing with ⟨_, foundToo, known⟩
  cases found.symm.trans foundThen
  cases found.symm.trans foundToo
  have unique := grown.nodup_constructors found
  have reached : Composite.Reached world.store world.store first type type.bases.constructors
      fun name => .ofDescriptor? (world.store.descriptor? type.prototype name) :=
    { adds := .refl world.store
      found, itself, raw
      constructors := rfl
      known
      holds := world.store.holds_ofDescriptor? type.prototype }
  rcases exists_run_compose_of_tables evolving rooted ((Passage.evolution σ).refl world) reached
    unique bare ready composer with ⟨whole, after, composed, ranWhole, _, reachedWhole⟩
  rcases Composite.exists_run_extendInTurn evolving rooted unique groups evolution
    (reached.added adds rooted) bare ready with ⟨last, final, extended, ranLast, reachedLast⟩
  refine ⟨whole, last, after, final, composed, extended, ranWhole, ranLast,
    reachedWhole.adds.journal, reachedLast.adds.journal.trans adds.journal.symm,
    reachedWhole.found, reachedLast.found,
    reachedWhole.constructors.trans reachedLast.constructors.symm, fun name => ?_⟩
  have alike := (reachedWhole.holds name).alike (reachedLast.holds name)
  exact ⟨alike.mem_enumerableNames_iff, alike⟩

/-! A type with one method, a table with advice that runs after it, and one that requires it. -/

def groupedRoots : World Unit where
  store := { Store.initial with
    objects := #[{ members := .ofEntries [("n", .ofValue (.procedure ⟨1⟩))] },
      { members := .ofEntries [("n", .ofValue (.procedure ⟨3⟩))] },
      { members := .ofEntries [("n", .ofValue (.procedure ⟨0⟩))] }]
    procedures := Store.initial.procedures ++ #[{ body := .code ⟨0⟩ }, { body := .code ⟨1⟩ },
      { body := .unapplied none, hook := some (.weave (.single ⟨0⟩)) }]
    layers := #[{ advice := .after ⟨2⟩ }] }
  state := ()

def groupedType : World Unit :=
  ((CompositionTree.composing [.table ⟨0⟩]).run groupedRoots).2

theorem compose_matches_extendInTurn_of_advice :
    ∃ whole last after final composed extended,
      (({} : Composer).compose (.ofBudget 1)
        [.procedure ⟨4⟩, .object ⟨1⟩, .object ⟨2⟩]).run groupedType = (.ok whole, after) ∧
      (Composite.extendInTurn (.ofBudget 1) [[.object ⟨1⟩], [.object ⟨2⟩]] ⟨4⟩).run groupedType =
        (.ok last, final) ∧
      after.store.composite? whole = some composed ∧
      final.store.composite? last = some extended ∧
      after.store.Alike composed.prototype final.store extended.prototype "n" := by
  have ran := Action.run_eq_of_toOption (CompositionTree.composing [.table ⟨0⟩]) groupedRoots ⟨4⟩
    (by decide +kernel)
  have grown : (CompositionTree.composite ⟨4⟩ [.table ⟨0⟩]).Grown groupedType := by
    refine .composed {} 0 (fun source member => ?_) ran
    rw [List.mem_singleton.mp member]
    exact .table (by decide)
  rcases grown.standing with ⟨type, found, _⟩
  obtain rfl : (groupedType.store.composite? ⟨4⟩).get! = type := by rw [found]; rfl
  have advice : (Value.procedure ⟨3⟩).Mergeable (.ofBudget 0) groupedType :=
    Value.mergeable_of_advice (by decide +kernel) rfl rfl rfl trivial
  have requirement : (Value.procedure ⟨0⟩).Mergeable (.ofBudget 0) groupedType :=
    Value.mergeable_of_unhooked (by decide +kernel) rfl rfl
  have names : ∀ table ∈ [[⟨1⟩], [⟨2⟩]].flatten,
      groupedType.store.enumerableNames table = ["n"] := by
    decide +kernel
  have bare : ∀ table ∈ [[⟨1⟩], [⟨2⟩]].flatten, Store.Bare (.ofBudget 0) groupedType table := by
    intro table member
    have listed := names table member
    rcases List.mem_pair.mp member with rfl | rfl
    · refine .of_listed (by decide +kernel) fun name inside => ⟨_, ?_, advice⟩
      rw [listed] at inside
      rw [List.mem_singleton.mp inside]
      rfl
    · refine .of_listed (by decide +kernel) fun name inside => ⟨_, ?_, requirement⟩
      rw [listed] at inside
      rw [List.mem_singleton.mp inside]
      rfl
  have ready : ∀ table ∈ [[⟨1⟩], [⟨2⟩]].flatten, ∀ name,
      groupedType.store.Advises table name →
      (Holding.ofDescriptor? (groupedType.store.descriptor?
        (groupedType.store.composite? ⟨4⟩).get!.prototype name)).Ready (.ofBudget 0)
          groupedType := by
    intro table member name advises
    have inside := advises.listed
    rw [names table member] at inside
    have resolved : groupedType.store.descriptor?
        (groupedType.store.composite? ⟨4⟩).get!.prototype name =
          some (.ofValue (.procedure ⟨1⟩)) := by
      rw [List.mem_singleton.mp inside]
      rfl
    rw [resolved]
    exact ⟨⟨_, rfl⟩, Weave.sound_bare (by decide +kernel)⟩
  rcases compose_matches_extendInTurn grown found (by decide +kernel) (by decide +kernel)
    ((Passage.evolution Unit).refl groupedType) (.refl groupedType.store) 0 [[⟨1⟩], [⟨2⟩]] bare
    ready {} with ⟨whole, last, after, final, composed, extended, ranWhole, ranLast, _, _,
      foundWhole, foundLast, _, alike⟩
  exact ⟨whole, last, after, final, composed, extended, ranWhole, ranLast, foundWhole, foundLast,
    (alike "n").2⟩

/-! A type with advice that user code weaves. Whenever it is woven, the user code locks a method
of a table that advises the same member. Merged at once, the method is locked where that of the
next table is to be assigned; merged in turn, it is only hidden. -/

def lockingRoots : World Unit where
  store := { Store.initial with
    objects := #[{ members := .ofEntries [("n", .ofValue (.procedure ⟨1⟩))] },
      { members := .ofEntries [("n", .ofValue (.procedure ⟨3⟩))] },
      { members := .ofEntries [("n", .ofValue (.procedure ⟨4⟩)),
          ("x", .ofValue (.procedure ⟨1⟩))] },
      { members := .ofEntries [("x", .ofValue (.procedure ⟨2⟩))] }]
    procedures := Store.initial.procedures ++ #[{ body := .code ⟨0⟩ }, { body := .code ⟨0⟩ },
      { body := .unapplied none, hook := some (.weave (.single ⟨0⟩)) },
      { body := .unapplied none, hook := some (.weave (.single ⟨1⟩)) }]
    layers := #[{ advice := .around ⟨1⟩ (.thrown "no procedure") }, { advice := .before ⟨0⟩ }] }
  codes := #[fun _ => .done (.ok .undefined), fun _ =>
    .ask (.define ⟨2⟩ "x" ⟨.data (.procedure ⟨1⟩) false, true, true⟩) fun _ =>
      .done (.ok (.procedure ⟨1⟩))]
  state := ()

def lockedMember : World Unit :=
  ((({} : Composer).compose (.ofBudget 2) [.object ⟨0⟩, .object ⟨1⟩]).run lockingRoots).2

def unlockedMember : World Unit :=
  { lockedMember with
    store := lockedMember.store.storeMember ⟨2⟩ "x" (.ofValue (.procedure ⟨1⟩)) }

/-- Where the advice that a type carries does more than advise, composing and extending part. -/
theorem compose_fails_where_extendInTurn_succeeds :
    ∃ type,
      (CompositionTree.composite ⟨7⟩ [.table ⟨0⟩, .table ⟨1⟩]).Grown unlockedMember ∧
      unlockedMember.store.composite? ⟨7⟩ = some type ∧ type.definer = none ∧
      unlockedMember.store.Rooted ∧
      (∀ table ∈ [⟨2⟩, ⟨3⟩], Store.Bare (.ofBudget 2) unlockedMember table) ∧
      (∀ table ∈ [⟨2⟩, ⟨3⟩], ∀ name, unlockedMember.store.Advises table name →
        unlockedMember.store.descriptor? type.prototype name =
          some (.ofValue (.procedure ⟨6⟩))) ∧
      ((({} : Composer).compose (.ofBudget 3)
        [.procedure ⟨7⟩, .object ⟨2⟩, .object ⟨3⟩]).run unlockedMember).1 =
          .error (.readOnly "x") ∧
      ((Composite.extendInTurn (.ofBudget 3) [[.object ⟨2⟩], [.object ⟨3⟩]] ⟨7⟩).run
        unlockedMember).1 = .ok ⟨12⟩ := by
  have ran := Action.run_eq_of_toOption
    (({} : Composer).compose (.ofBudget 2) [.object ⟨0⟩, .object ⟨1⟩]) lockingRoots ⟨7⟩
    (by decide +kernel)
  have composed : (CompositionTree.composite ⟨7⟩ [.table ⟨0⟩, .table ⟨1⟩]).Grown
      lockedMember := by
    refine .composed {} 2 (fun source member => ?_) ran
    rcases List.mem_pair.mp member with rfl | rfl <;> exact .table (by decide)
  have unlocked : (Passage.evolution Unit).leads lockedMember unlockedMember :=
    ⟨.of_step (.define (by decide +kernel)), List.prefix_rfl⟩
  have evolution := (Passage.evolution Unit).trans (CompositionTree.leads_compose ran) unlocked
  have advice : (Value.procedure ⟨4⟩).Mergeable (.ofBudget 2) lockingRoots :=
    Value.mergeable_of_advice (by decide) rfl rfl rfl trivial
  have first : (Value.procedure ⟨1⟩).Mergeable (.ofBudget 2) lockingRoots :=
    Value.mergeable_of_unhooked (by decide) rfl rfl
  have second : (Value.procedure ⟨2⟩).Mergeable (.ofBudget 2) lockingRoots :=
    Value.mergeable_of_unhooked (by decide) rfl rfl
  have atN : unlockedMember.store.descriptor? ⟨2⟩ "n" = some (.ofValue (.procedure ⟨4⟩)) :=
    Store.descriptor?_of_same (by decide +kernel)
  have atX : unlockedMember.store.descriptor? ⟨2⟩ "x" = some (.ofValue (.procedure ⟨1⟩)) :=
    Store.descriptor?_of_same (by decide +kernel)
  have next : unlockedMember.store.descriptor? ⟨3⟩ "x" = some (.ofValue (.procedure ⟨2⟩)) :=
    Store.descriptor?_of_same (by decide +kernel)
  have advising : unlockedMember.store.enumerableNames ⟨2⟩ = ["n", "x"] := by decide +kernel
  have single : unlockedMember.store.enumerableNames ⟨3⟩ = ["x"] := by decide +kernel
  refine ⟨_, .later composed unlocked, (Option.some_get! _ (by decide +kernel)).symm,
    by decide +kernel, by decide +kernel, fun table member => ?_,
    fun table member name advises => ?_, by decide +kernel, by decide +kernel⟩
  · rcases List.mem_pair.mp member with rfl | rfl
    · refine .of_listed (by decide +kernel) fun name listed => ?_
      rw [advising] at listed
      rcases List.mem_pair.mp listed with rfl | rfl
      · exact ⟨_, atN, advice.later evolution⟩
      · exact ⟨_, atX, first.later evolution⟩
    · refine .of_listed (by decide +kernel) fun name listed => ?_
      rw [single] at listed
      rw [List.mem_singleton.mp listed]
      exact ⟨_, next, second.later evolution⟩
  · have listed := advises.listed
    rcases advises with ⟨method, shown, hooked⟩
    rcases List.mem_pair.mp member with rfl | rfl
    · rw [advising] at listed
      rcases List.mem_pair.mp listed with rfl | rfl
      · exact Store.descriptor?_of_same (by decide +kernel)
      · cases (Store.shown?_of_descriptor? atX).symm.trans shown
        exact absurd hooked (by decide +kernel)
    · rw [single] at listed
      rw [List.mem_singleton.mp listed] at shown
      cases (Store.shown?_of_descriptor? next).symm.trans shown
      exact absurd hooked (by decide +kernel)

end Composer

end TraitComposition
