import TraitComposition.Proofs.Advice.Trait

/-!
The type of a trait. Its table delegates to that of the first parent and takes over from
the others; then it is entered with everything that its parents have flattened. It carries
the shared member as its parents do, with one more trait in its order.
-/
namespace TraitComposition.SharedMember

open Store (ChangesOnly)
open TraitGraph (Merges)

variable {σ : Type} {shared : SharedMember} {store : Store} {target : ObjectId}

/-! ### Entering the type -/

def sourcesOf (parents : List AdvisedType) (constructor : ProcedureId) (table : ObjectId) :
    List Value :=
  parents.map AdvisedType.source ++ [.procedure constructor, .object table]

section Entering

variable {parents : List AdvisedType} {constructor : ProcedureId} {empty : ObjectId}

private theorem chainSources_sourcesOf (constructor : ProcedureId) (table prototype : ObjectId) :
    Composer.chainSources prototype (sourcesOf parents constructor table) =
      sourcesOf parents constructor prototype := by
  have appended (last : ObjectId) : sourcesOf parents constructor last =
      (parents.map AdvisedType.source ++ [.procedure constructor]) ++ [.object last] := by
    simp [sourcesOf]
  rw [appended table, Composer.chainSources_append_object, appended prototype]

variable (carries : ∀ parent ∈ parents, shared.Carries store parent)
  (tabled : store.Tabled constructor empty)

include carries tabled

private theorem settled_sourcesOf (table : ObjectId) :
    store.Settled (sourcesOf parents constructor table) := by
  intro source member
  rcases List.mem_append.mp member with type | new
  · rcases List.mem_map.mp type with ⟨parent, inside, rfl⟩
    exact congrArg Prod.snd
      (Store.sourcePrototypes_of_composite? (carries parent inside).houses.found)
  · rcases List.mem_pair.mp new with rfl | rfl
    · exact congrArg Prod.snd tabled.sourcePrototypes_eq
    · rfl

private theorem mem_prototypes_sourcesOf {table last : ObjectId} :
    last ∈ (Store.prototypes (sourcesOf parents constructor table) store).1 ↔
      (∃ parent ∈ parents, last ∈ parent.composite.bases.prototypes) ∨ last = empty ∨
        last = table := by
  rw [Store.prototypes_of_settled (settled_sourcesOf carries tabled table), FirstSeen.mem_ofList,
    List.mem_flatMap]
  constructor
  · rintro ⟨source, member, contributed⟩
    rcases List.mem_append.mp member with type | new
    · rcases List.mem_map.mp type with ⟨parent, inside, rfl⟩
      rw [AdvisedType.source,
        Store.sourcePrototypes_of_composite? (carries parent inside).houses.found] at contributed
      exact .inl ⟨parent, inside, contributed⟩
    · rcases List.mem_pair.mp new with rfl | rfl
      · rw [tabled.sourcePrototypes_eq] at contributed
        exact .inr (.inl (List.mem_singleton.mp contributed))
      · exact .inr (.inr (List.mem_singleton.mp contributed))
  · rintro (⟨parent, inside, contributed⟩ | rfl | rfl)
    · refine ⟨parent.source, List.mem_append_left _ (List.mem_map_of_mem inside), ?_⟩
      rw [AdvisedType.source,
        Store.sourcePrototypes_of_composite? (carries parent inside).houses.found]
      exact contributed
    · refine ⟨.procedure constructor, by simp [sourcesOf], ?_⟩
      rw [tabled.sourcePrototypes_eq]
      exact List.mem_singleton_self _
    · exact ⟨.object last, by simp [sourcesOf], List.mem_singleton_self _⟩

variable {order : List Nat} {woven : ProcedureId}
  (destination : shared.Destination store target order woven)
  (within : ∀ parent ∈ parents, parent.order ⊆ order)

include destination within

theorem entered_sourcesOf {table : ObjectId}
    (member : table ∈ (Store.prototypes (sourcesOf parents constructor target) store).1)
    {method : ProcedureId} (holds : store.dataValue? table shared.name = some (.procedure method)) :
    store.hasProcedure method = true ∧
      ∀ trait, shared.layer trait ∈ (store.weaveOf (some (.procedure method))).layers →
        trait ∈ order := by
  rcases (mem_prototypes_sourcesOf carries tabled).mp member with
    ⟨parent, inside, contributed⟩ | rfl | rfl
  · rcases (carries parent inside).entered table contributed method holds with ⟨known, layers⟩
    exact ⟨known, fun trait layer => within parent inside (layers trait layer)⟩
  · rw [tabled.dataValue?_eq_none] at holds
    cases holds
  · rw [destination.dataValue?_eq] at holds
    cases holds
    refine ⟨destination.woven.known, fun trait layer => ?_⟩
    rw [destination.woven.weave, shared.mem_layers_weave] at layer
    exact layer

omit within in
private theorem hasObject_of_mem_prototypes_sourcesOf {table : ObjectId}
    (member : table ∈ (Store.prototypes (sourcesOf parents constructor target) store).1) :
    store.hasObject table = true := by
  rcases (mem_prototypes_sourcesOf carries tabled).mp member with
    ⟨parent, inside, contributed⟩ | rfl | rfl
  · exact (carries parent inside).houses.known table contributed
  · exact tabled.known
  · exact destination.inStore

theorem carries_enterType (composer : Composer) (table : ObjectId)
    (owned : store.ownDescriptor? target shared.name = some (.ofValue (.procedure woven))) :
    ∃ advised : AdvisedType, ∃ later,
      composer.enterType (sourcesOf parents constructor table) target store =
        (advised.type, later) ∧
      advised.order = order ∧ later.layers = store.layers ∧
      (∀ other, ChangesOnly other store later) ∧ shared.Carries later advised := by
  have chain : Composer.chainSources target (sourcesOf parents constructor table) =
      sourcesOf parents constructor target := chainSources_sourcesOf constructor table target
  have entered := composer.enterType_of_settled (sourcesOf parents constructor table) target
    (chain.symm ▸ settled_sourcesOf carries tabled target)
  have found := composer.composite?_enterType (sourcesOf parents constructor table) target store
  have bases (last : ObjectId) : last ∈ FirstSeen.insert (Store.prototypes
      (Composer.chainSources target (sourcesOf parents constructor table)) store).1 target ↔
        last ∈ (Store.prototypes (sourcesOf parents constructor target) store).1 := by
    rw [chain, FirstSeen.mem_insert, or_iff_left_iff_imp]
    rintro rfl
    exact (mem_prototypes_sourcesOf carries tabled).mpr (.inr (.inr rfl))
  have changes (other : ObjectId) : ChangesOnly other store
      (composer.enterType (sourcesOf parents constructor table) target store).2 := by
    rw [entered]
    exact .of_addComposite ..
  have apart {object : ObjectId} (known : store.hasObject object = true) :=
    Store.not_mem_ancestry_nextObject destination.rooted known
  generalize composer.enterType (sourcesOf parents constructor table) target store = result
    at entered found changes
  rcases result with ⟨type, later⟩
  have made : later = _ := congrArg Prod.snd entered
  obtain ⟨composite, found, prototype, raw, bases⟩ : ∃ composite : Composite,
      later.composite? type = some composite ∧ composite.prototype = target ∧
      composite.definer = none ∧ ∀ last, last ∈ composite.bases.prototypes ↔
        last ∈ (Store.prototypes (sourcesOf parents constructor target) store).1 :=
    ⟨_, found, rfl, rfl, bases⟩
  refine ⟨⟨type, composite, order, woven⟩, later, rfl, rfl, by rw [made]; rfl, changes, ?_⟩
  refine
    { houses :=
        { found := found
          own := prototype ▸ (bases target).mpr
            ((mem_prototypes_sourcesOf carries tabled).mpr (.inr (.inr rfl)))
          known := fun last member => ?_ }
      raw := raw
      resolves := ?_
      entered := fun last member method holds => ?_
      owned := fun _ => ?_ }
  · exact ((changes target).extends_.object last (hasObject_of_mem_prototypes_sourcesOf carries
      tabled destination ((bases last).mp member))).1
  · rw [prototype]
    exact destination.toResolves.later (changes store.nextObject) destination.rooted
      destination.inStore (apart destination.inStore)
  · have inside := (bases last).mp member
    have known := hasObject_of_mem_prototypes_sourcesOf carries tabled destination inside
    rw [(changes store.nextObject).dataValue?_eq destination.rooted known (apart known)] at holds
    rcases entered_sourcesOf carries tabled destination within inside holds with
      ⟨knownMethod, layers⟩
    rw [(changes target).extends_.weaveOf knownMethod]
    exact ⟨((changes target).extends_.procedure method knownMethod).1, layers⟩
  · rw [prototype, made]
    exact owned

end Entering

/-! ### Composing -/

private theorem destination_delegating (rooted : store.Rooted) {first : AdvisedType}
    (carries : shared.Carries store first) :
    shared.Destination (store.delegating first.composite.prototype) store.nextObject first.order
      first.method := by
  have known := carries.houses.hasObject_prototype
  have adds := Store.AddsTable.of_delegating known
  have unowned (name : String) :=
    store.ownDescriptor?_delegating_nextObject first.composite.prototype name
  refine
    { found := ?_
      woven := carries.resolves.woven.extends (.of_createObject ..)
      others := fun name different => ?_
      rooted := adds.changes.rooted rooted
      inStore := adds.hasObject_nextObject
      plain := fun name descriptor owned => ?_ }
  · rw [adds.lookup_nextObject rooted known (unowned _)]
    exact carries.resolves.found
  · rw [adds.descriptor?_nextObject rooted known (unowned _)]
    exact carries.resolves.others name different
  · rw [unowned] at owned
    cases owned

private theorem offers_delegating (rooted : store.Rooted) {advised : AdvisedType}
    (carries : shared.Carries store advised) (base : ObjectId) :
    shared.Offers (store.delegating base) store.nextObject advised := by
  have changes := ChangesOnly.of_createObject store (some base) store.nextObject
  have apart (table : ObjectId) (member : table ∈ advised.composite.bases.prototypes) :=
    Store.not_mem_ancestry_nextObject rooted (carries.houses.known table member)
  refine ⟨carries.later changes rooted apart, fun table member => ?_⟩
  rw [Store.delegating, changes.ancestry_eq rooted (carries.houses.known table member)]
  exact apart table member

section Composing

variable (meaning : Meaning σ) (composer : Composer) (world : World σ) {first : AdvisedType}
  {rest : List AdvisedType} {constructor : ProcedureId} {table : ObjectId} {trait : Nat}
  (rooted : world.store.Rooted)
  (carries : ∀ parent ∈ first :: rest, shared.Carries world.store parent)
  (layered : ∀ parent ∈ rest, parent.order ≠ []) (others : shared.OthersPlain world.store)
  (plain : world.store.isPlain constructor = true)
  (tableless : (world.store.procedure constructor).table = none)
  (binds : shared.Binds world.store table trait)

include rooted carries layered others plain tableless binds

theorem run_composeTable :
    ∃ joined merged woven empty,
      (composer.composeTable meaning.step first.source
        (sourcesOf rest constructor table)).run world =
          (.ok world.store.nextObject, { world with store := joined }) ∧
      ChangesOnly world.store.nextObject world.store joined ∧
      joined.layers = world.store.layers ∧
      Merges first.order (rest.map AdvisedType.order) merged ∧
      shared.Destination joined world.store.nextObject (FirstSeen.insert merged trait) woven ∧
      joined.ownDescriptor? world.store.nextObject shared.name =
        some (.ofValue (.procedure woven)) ∧
      joined.Tabled constructor empty := by
  have carriesFirst := carries first (List.mem_cons_self ..)
  have delegating := ChangesOnly.of_createObject world.store (some first.composite.prototype)
    world.store.nextObject
  have apart := (Store.nextObject_ne binds.known).symm
  have ready : ∀ parent ∈ rest,
      shared.Offers (world.store.delegating first.composite.prototype) world.store.nextObject
        parent ∧ parent.order ≠ [] := fun parent member =>
    ⟨offers_delegating rooted (carries parent (List.mem_cons_of_mem _ member)) _,
      layered parent member⟩
  rcases run_mixin_of_trait meaning
      { world with store := world.store.delegating first.composite.prototype }
      (destination_delegating rooted carriesFirst) ready (others.extends delegating.extends_)
      (delegating.extends_.isPlain plain) tableless (binds.later delegating apart) apart with
    ⟨joined, merged, woven, empty, ran, changes, layers, merges, destination, owned, tabled⟩
  refine ⟨joined, merged, woven, empty, ?_, delegating.trans changes, layers, merges, destination,
    owned, tabled⟩
  have definer := Definer.run_ofValue_of_type meaning.step
    { world with store := world.store.delegating first.composite.prototype }
    carriesFirst.houses.found carriesFirst.raw
  rw [AdvisedType.source, Composer.composeTable_procedure,
    Action.run_bind_of_ok _ (Sources.run_delegate_of_type carriesFirst.houses.found),
    Action.run_bind_of_ok _ definer, sourcesOf, Action.run_bind_of_ok _ ran,
    Composer.run_report_bind, Composer.answer_nil]
  rfl

/-- Composing a trait cannot fail. Its order is what the orders of its parents merge to,
with the trait itself at the end. -/
theorem run_compose :
    ∃ advised : AdvisedType, ∃ later,
      (composer.compose meaning.step (sourcesOf (first :: rest) constructor table)).run world =
        (.ok advised.type, { world with store := later }) ∧
      (∀ other, ChangesOnly other world.store later) ∧
      later.layers = world.store.layers ∧ shared.Carries later advised ∧
      ∃ merged, Merges first.order (rest.map AdvisedType.order) merged ∧
        advised.order = FirstSeen.insert merged trait := by
  rcases run_composeTable meaning composer world rooted carries layered others plain tableless binds
    with ⟨joined, merged, woven, empty, ran, changes, layers, merges, destination, owned, tabled⟩
  have new : world.store.hasObject world.store.nextObject = false := by
    simp [Store.hasObject, Store.nextObject]
  have valid : Sources.validate (sourcesOf (first :: rest) constructor table) 0 = .ok () := by
    refine Sources.validate_eq_ok (by simp [sourcesOf]) (fun source member => ?_) 0
    rcases List.mem_append.mp member with type | last
    · rcases List.mem_map.mp type with ⟨parent, _, rfl⟩
      exact .inl ⟨_, rfl⟩
    · rcases List.mem_pair.mp last with rfl | rfl
      · exact .inl ⟨_, rfl⟩
      · exact .inr ⟨_, rfl⟩
  have within : ∀ parent ∈ first :: rest, parent.order ⊆ FirstSeen.insert merged trait := by
    intro parent member other inside
    refine FirstSeen.mem_insert.mpr (.inl (merges.mem_iff.mpr ?_))
    rcases List.mem_cons.mp member with rfl | later
    · exact .inl inside
    · exact .inr ⟨parent.order, List.mem_map_of_mem later, inside⟩
  rcases carries_enterType
    (fun parent member => (carries parent member).later_of_new changes rooted)
      tabled destination within composer table owned with
    ⟨advised, later, entered, order, layersLater, changesLater, carriesLater⟩
  refine ⟨advised, later, ?_, fun other => (changes.of_new new other).trans (changesLater other),
    layersLater.trans layers, carriesLater, merged, merges, order⟩
  have composed := Composer.run_compose meaning.step composer valid world
  rw [show (sourcesOf (first :: rest) constructor table).headD .undefined = first.source from rfl,
    show (sourcesOf (first :: rest) constructor table).tail = sourcesOf rest constructor table
      from rfl, ran] at composed
  rw [composed]
  simp only [entered]

end Composing

end TraitComposition.SharedMember
