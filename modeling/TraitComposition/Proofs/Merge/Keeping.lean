import TraitComposition.Proofs.Merge.Markers
import TraitComposition.Proofs.Merge.SourceTables

/-!
Methods that are kept. A method that a source brings may be superseded by the one that the
destination holds already: the source has only inherited it, or it was overridden before, by the
destination or by a source merged earlier. The merge then puts back what the destination
resolves. That is no more than to own what was inherited; but what the destination owns is
assigned to itself, and a read-only member refuses this.
-/
namespace TraitComposition

namespace Store

theorem OnlyAdds.chainHolds_eq {before after : Store} (adds : before.OnlyAdds after)
    (rooted : before.Rooted) {target : ObjectId} {tables chain : List ObjectId}
    (known : ∀ table ∈ tables, before.hasObject table = true)
    (spans : after.Spans target tables chain) (name : String) (method : Value) :
    after.chainHolds chain name method = before.chainHolds tables name method := by
  rw [spans.chainHolds_eq]
  refine chainHolds_congr (fun table member => ?_) method
  rw [dataValue?, dataValue?, adds.descriptor?_eq rooted (known table member)]

private theorem OnlyAdds.changesWithin {before after : Store} (adds : before.OnlyAdds after) :
    ChangesWithin .nowhere before after where
  extends_ := adds.extends_
  own object name known _ := by rw [ownDescriptor?, ownDescriptor?, adds.members_eq known]
  rooted := adds.rooted

end Store

namespace Merge

open Store (Spans)

variable {σ : Type}

/-- Whether the method that the source at `index` resolves a name to, found at `owner` on the line
of delegation of its table, is superseded by the method that the destination holds. -/
inductive Superseded (store : Store) (plan : Plan) (index : Nat) (table owner : ObjectId)
    (ownTables : List ObjectId) (name : String) (incoming kept : ProcedureId) : Prop
  /-- The source has inherited the method. -/
  | inherited (farther : owner ≠ table)
      (held : ∃ other ∈ (plan.sources.take (index + 1)).flatMap store.sourceTables,
        store.dataValue? other name = some (.procedure incoming))
  /-- The source has not overridden what the destination holds, but the destination has
  overridden the method. -/
  | byDestination (own : owner = table)
      (untouched : ∀ other ∈ ownTables, store.dataValue? other name ≠ some (.procedure kept))
      (hidden : ∃ level ∈ store.ancestors plan.target,
        (store.ownDescriptor? level name).bind Descriptor.value? = some (.procedure incoming))
  /-- The source has not overridden what the destination holds, but a source merged earlier has
  overridden the method. -/
  | byEarlier (own : owner = table)
      (untouched : ∀ other ∈ ownTables, store.dataValue? other name ≠ some (.procedure kept))
      (held : ∃ other ∈ (plan.sources.take index).flatMap store.sourceTables,
        store.dataValue? other name = some (.procedure incoming))

section Keeping

variable {store : Store} {plan : Plan} {index : Nat} {table owner : ObjectId}
  {ownTables : List ObjectId} {name : String} {incoming kept : ProcedureId}

private theorem superseded_iff_chains :
    Superseded store plan index table owner ownTables name incoming kept ↔
      if owner = table then
        store.chainHolds ownTables name (.procedure kept) = false ∧
          (store.inherits plan.target name (.procedure incoming) = true ∨
            store.chainHolds ((plan.sources.take index).flatMap store.sourceTables) name
              (.procedure incoming) = true)
      else
        store.chainHolds ((plan.sources.take (index + 1)).flatMap store.sourceTables) name
          (.procedure incoming) = true := by
  have untouched_iff : store.chainHolds ownTables name (.procedure kept) = false ↔
      ∀ other ∈ ownTables, store.dataValue? other name ≠ some (.procedure kept) := by
    rw [← Bool.not_eq_true, Store.chainHolds_iff]
    simp
  rw [untouched_iff, Store.chainHolds_iff, Store.chainHolds_iff, Store.inherits_iff]
  split
  · next own =>
    constructor
    · rintro (⟨farther, _⟩ | ⟨_, untouched, hidden⟩ | ⟨_, untouched, held⟩)
      · exact absurd own farther
      · exact ⟨untouched, .inl hidden⟩
      · exact ⟨untouched, .inr held⟩
    · rintro ⟨untouched, hidden | held⟩
      · exact .byDestination own untouched hidden
      · exact .byEarlier own untouched held
  · next farther =>
    constructor
    · rintro (⟨_, held⟩ | ⟨own, _⟩ | ⟨own, _⟩)
      · exact held
      · exact absurd own farther
      · exact absurd own farther
    · exact .inherited farther

theorem resolve_eq_keepDestination_iff (brought : store.isRequired incoming = false)
    (there : store.isRequired kept = false) :
    Rivalry.resolve ⟨name, incoming, kept, owner == table, ownTables⟩ store plan.target
        ((plan.sources.take index).flatMap store.sourceTables)
        ((plan.sources.take (index + 1)).flatMap store.sourceTables) = .keepDestination ↔
      Superseded store plan index table owner ownTables name incoming kept := by
  rw [superseded_iff_chains]
  unfold Rivalry.resolve Rivalry.overridesExisting
  simp only [brought, there, Bool.false_eq_true, if_false, beq_iff_eq]
  split
  · cases store.chainHolds ownTables name (.procedure kept) with
    | true => simp
    | false => cases store.inherits plan.target name (.procedure incoming) <;> simp
  · split
    · next held => simp [held]
    · next missing => simp [missing]; split <;> simp

end Keeping

theorem run_putQuietly_of_readOnly (plan : Plan) {world : World σ} {name : String}
    {descriptor existing : Descriptor} {value old : Value}
    (valued : descriptor.value? = some value)
    (owned : world.store.hasOwn plan.target name = true)
    (resolved : world.store.descriptor? plan.target name = some existing)
    (readOnly : existing.shape = .data old false) (meaning : Meaning σ) (held : List Conflict) :
    (putQuietly plan name descriptor meaning held).run world =
      (.error (.readOnly name), world) := by
  rcases Option.map_eq_some_iff.mp resolved with ⟨⟨owner, found⟩, lookedUp, rfl⟩
  have locked : found.shape = .data old false := readOnly
  rw [putQuietly, put, valued]
  simp only [Action.run_getStore_bind, bind_assoc, owned, if_true, Member.assign, lookedUp,
    locked, Action.run_throw_bind]

section Turn

variable {world : World σ} {table owner : ObjectId} {name : String}
  {descriptor existing : Descriptor}
  {incoming kept : ProcedureId} (plan : Plan) (index : Nat) {ownTables chain : List ObjectId}
  (rooted : world.store.Rooted)
  (tables : ∀ source ∈ plan.sources.take (index + 1), world.store.HasTablesOf source)
  (own : ∀ other ∈ ownTables, world.store.hasObject other = true)
  (spans : world.store.Spans plan.target ownTables chain)
  (resolved : world.store.descriptor? plan.target name = some existing)
  (keeps : existing.method? = some kept) (different : kept ≠ incoming)

include rooted tables own spans resolved keeps different

theorem exists_run_weigh_of_resolved (own : Bool) :
    ∃ asked,
      (weigh plan index name own incoming chain (world.store.dataValue? plan.target name)).run
          world =
        (.ok (Rivalry.resolve ⟨name, incoming, kept, own, ownTables⟩ world.store plan.target
          ((plan.sources.take index).flatMap world.store.sourceTables)
          ((plan.sources.take (index + 1)).flatMap world.store.sourceTables)),
          { world with store := asked }) ∧
      world.store.OnlyAdds asked := by
  have target := Store.hasObject_of_descriptor? resolved
  have current : world.store.dataValue? plan.target name = some (.procedure kept) := by
    rw [Store.dataValue?, resolved, Option.bind_some, Descriptor.value?_of_method? keeps]
  rcases exists_run_weigh_spanning plan (.refl target) index name own chain different with
    ⟨asked, earlier, throughThis, ran, amid, adds, spansEarlier, spansThis⟩
  have known : ∀ table ∈ (plan.sources.take (index + 1)).flatMap world.store.sourceTables,
      world.store.hasObject table = true :=
    List.forall_mem_flatMap.mpr fun source member => (tables source member).tables
  have knownEarlier : ∀ table ∈ (plan.sources.take index).flatMap world.store.sourceTables,
      world.store.hasObject table = true :=
    List.forall_mem_flatMap.mpr fun source member =>
      (tables source (List.take_subset_take_left _ (Nat.le_succ index) member)).tables
  refine ⟨asked, ?_, adds⟩
  rw [current, ran]
  congr 2
  apply resolve_congr incoming kept own
  · exact amid.isRequired
  · exact (adds.confined target []).inherits_eq rooted target List.not_mem_nil
  · exact adds.chainHolds_eq rooted ‹_› (spans.later (adds.changesOnly plan.target)) name
  · exact adds.chainHolds_eq rooted knownEarlier spansEarlier name
  · exact adds.chainHolds_eq rooted known spansThis name

variable (found : world.store.lookup table name = some (owner, descriptor))
  (method : descriptor.method? = some incoming)
  (silent : installs world.store table chain name (world.store.dataValue? plan.target name) =
    false)
  (brought : world.store.isRequired incoming = false)
  (there : world.store.isRequired kept = false)

include found method silent brought there

/-- A destination with direct definitions keeps its method exactly if the one that a source
brings is superseded. This leaves the member alone, whatever its flags are, unless the
destination owns it as a read-only one: then the merge fails, and the member stays. -/
theorem superseded_leavesAlone_iff (raw : plan.definer = .raw) :
    ((∃ asked, (weigh plan index name (owner == table) incoming chain
        (world.store.dataValue? plan.target name)).run world = (.ok .keepDestination, asked)) ↔
      Superseded world.store plan index table owner ownTables name incoming kept) ∧
    (Superseded world.store plan index table owner ownTables name incoming kept →
      (LeavesAlone (fun meaning => mixMethod meaning plan index table chain name) plan.target name
          world ↔
        (world.store.hasOwn plan.target name = true →
          existing.shape = .data (.procedure kept) true)) ∧
      (world.store.hasOwn plan.target name = true →
        existing.shape = .data (.procedure kept) false →
          ∀ meaning held, ∃ later : World σ,
            (mixMethod meaning plan index table chain name held).run world =
              (.error (.readOnly name), later) ∧
            later.store.descriptor? plan.target name = some existing)) := by
  rcases exists_run_weigh_of_resolved plan index rooted tables own spans resolved keeps different
    (owner == table) with ⟨asked, weighs, adds⟩
  rw [← resolve_eq_keepDestination_iff brought there]
  refine ⟨⟨fun ⟨_, kept⟩ => ?_, fun keeping => ⟨_, keeping ▸ weighs⟩⟩, fun keeping => ⟨?_, ?_⟩⟩
  · rw [weighs] at kept
    exact Except.ok.inj (congrArg Prod.fst kept)
  · rw [keeping] at weighs
    rw [leavesAlone_iff_of_keeping found method silent weighs adds.changesWithin rooted resolved
      (Descriptor.value?_of_method? keeps)]
    simp [raw]
  · intro owned readOnly meaning held
    rw [keeping] at weighs
    let later : World σ := { world with store := asked }
    have changes : Store.ChangesWithin .nowhere world.store later.store := adds.changesWithin
    have still := descriptor?_of_weighed changes rooted resolved
    have ownedStill : later.store.hasOwn plan.target name = true := by
      rw [Store.hasOwn, adds.members_eq (Store.hasObject_of_descriptor? resolved)]
      exact owned
    refine ⟨later, ?_, still⟩
    rw [run_mixMethod_of_keeping found method silent weighs changes rooted resolved]
    exact run_putQuietly_of_readOnly plan (Descriptor.value?_of_method? keeps) ownedStill still
      readOnly meaning held

end Turn

/-- An object that owns a read-only method, one that inherits it, and a type that inherits another
method under the same name. -/
def readOnlyMethod : World Unit where
  store := {
    objects := #[
      { members := MemberTable.empty.insert "n" (.ofValue (.procedure ⟨1⟩)) },
      { parent := some ⟨0⟩ },
      { members := MemberTable.empty.insert "n" ⟨.data (.procedure ⟨2⟩) false, true, true⟩ },
      { parent := some ⟨2⟩ }]
    procedures := #[{ body := .required }, { body := .code ⟨0⟩ }, { body := .code ⟨0⟩ },
      { body := .composite ⟨0⟩ }]
    composites := #[
      { procedure := ⟨3⟩, prototype := ⟨1⟩, bases := { prototypes := [⟨0⟩, ⟨1⟩] },
        composer := {} }] }
  state := ()

/-- The object that inherits the method keeps it, the one that owns it cannot be merged into. -/
theorem superseded_refused_where_owned :
    ¬LeavesAlone (fun meaning =>
        mixMethod meaning ⟨⟨2⟩, .raw, [.procedure ⟨3⟩]⟩ 0 ⟨1⟩ [⟨0⟩, ⟨1⟩] "n") ⟨2⟩ "n"
        readOnlyMethod ∧
      LeavesAlone (fun meaning =>
        mixMethod meaning ⟨⟨3⟩, .raw, [.procedure ⟨3⟩]⟩ 0 ⟨1⟩ [⟨0⟩, ⟨1⟩] "n") ⟨3⟩ "n"
        readOnlyMethod := by
  have found : readOnlyMethod.store.lookup ⟨1⟩ "n" = some (⟨0⟩, .ofValue (.procedure ⟨1⟩)) := rfl
  have tables : ∀ source ∈ [Value.procedure ⟨3⟩], readOnlyMethod.store.HasTablesOf source :=
    List.forall_mem_singleton.mpr (by decide)
  have own : ∀ table ∈ [(⟨0⟩ : ObjectId), ⟨1⟩], readOnlyMethod.store.hasObject table = true := by
    decide
  have held : ∃ table ∈ [Value.procedure ⟨3⟩].flatMap readOnlyMethod.store.sourceTables,
      readOnlyMethod.store.dataValue? table "n" = some (.procedure ⟨1⟩) :=
    ⟨⟨1⟩, by decide, rfl⟩
  have alone {target : ObjectId} (resolved : readOnlyMethod.store.descriptor? target "n" =
      some ⟨.data (.procedure ⟨2⟩) false, true, true⟩)
      (silent : installs readOnlyMethod.store ⟨1⟩ [⟨0⟩, ⟨1⟩] "n"
        (readOnlyMethod.store.dataValue? target "n") = false) :=
    (superseded_leavesAlone_iff ⟨target, .raw, [.procedure ⟨3⟩]⟩ 0
      (Store.rooted_iff.mpr (by decide)) tables own (.refl _ _ _) resolved rfl (by decide)
      found rfl silent rfl rfl rfl).2 (.inherited (by decide) held)
  refine ⟨fun leaves => ?_, ?_⟩
  · have writable := (alone rfl rfl).1.mp leaves (by decide)
    cases writable
  · exact (alone rfl rfl).1.mpr fun owned => absurd owned (by decide)

end Merge

end TraitComposition
