import TraitComposition.Proofs.Merge.Weighing
import TraitComposition.Proofs.Store.NewTable

/-!
Ordinary tables. A bare table is an ordinary one if its methods carry no hooks and none of
them is a requirement. Merged into an object that owns nothing yet, it has its descriptors
defined there, and what is owned in the end is what the table resolves; provided that the
definer does define what it is given.
-/
namespace TraitComposition

namespace Store

/-! ### Adopted members -/

/-- Whether nothing that was there before has changed but one object, which now owns given
descriptors under some names. -/
structure Adopts (target : ObjectId) (names : List String) (content : String → Option Descriptor)
    (before after : Store) : Prop extends ChangesOnly target before after where
  own : ∀ name, after.ownDescriptor? target name =
    if name ∈ names then content name else before.ownDescriptor? target name

namespace Adopts

variable {target : ObjectId} {names more : List String} {content : String → Option Descriptor}
  {first second third : Store}

theorem refl (target : ObjectId) (content : String → Option Descriptor) (store : Store) :
    Adopts target [] content store store where
  toChangesOnly := .refl target store
  own _ := (if_neg List.not_mem_nil).symm

theorem trans (start : Adopts target names content first second)
    (rest : Adopts target more content second third) :
    Adopts target (names ++ more) content first third where
  toChangesOnly := start.toChangesOnly.trans rest.toChangesOnly
  own name := by
    rw [rest.own, start.own]
    by_cases late : name ∈ more <;> simp [late]

private theorem congr {others : String → Option Descriptor}
    (adopts : Adopts target names content first second)
    (same : ∀ name ∈ names, content name = others name) :
    Adopts target names others first second :=
  { adopts with
    own := fun name => by
      rw [adopts.own]
      split
      · next member => exact same name member
      · rfl }

private theorem of_storeMember (store : Store) (name : String) (descriptor : Descriptor)
    (known : store.hasObject target = true) :
    Adopts target [name] (fun _ => some descriptor) store
      (store.storeMember target name descriptor) where
  toChangesOnly := .of_storeMember store target name descriptor
  own other := by
    by_cases same : other = name
    · rw [same, ownDescriptor?_storeMember_same _ _ _ _ known,
        if_pos (List.mem_singleton.mpr rfl)]
    · rw [ownDescriptor?_storeMember_other _ _ fun both => same both.2,
        if_neg fun member => same (List.mem_singleton.mp member)]

end Adopts

/-! ### Ordinary tables -/

/-- Whether the enumerable methods of an object carry no hooks, and none is a requirement. -/
def Ordinary (store : Store) (table : ObjectId) : Prop :=
  ∀ name ∈ store.enumerableNames table,
    ∀ method ∈ (store.descriptor? table name).bind Descriptor.method?,
      store.isRequired method = false ∧ (store.procedure method).hook = none

instance (store : Store) (table : ObjectId) : Decidable (store.Ordinary table) :=
  inferInstanceAs (Decidable (∀ name ∈ store.enumerableNames table,
    ∀ method ∈ (store.descriptor? table name).bind Descriptor.method?,
      store.isRequired method = false ∧ (store.procedure method).hook = none))

theorem Ordinary.method {store : Store} {table : ObjectId} {name : String}
    {descriptor : Descriptor} {method : ProcedureId} (ordinary : store.Ordinary table)
    (listed : name ∈ store.enumerableNames table)
    (resolved : store.descriptor? table name = some descriptor)
    (holds : descriptor.method? = some method) :
    store.isRequired method = false ∧ (store.procedure method).hook = none := by
  apply ordinary name listed
  rw [resolved]
  exact holds

theorem Ordinary.later {before after : Store} {target table : ObjectId}
    (ordinary : before.Ordinary table) (changes : ChangesOnly target before after)
    (rooted : before.Rooted) (known : before.hasObject table = true)
    (apart : target ∉ before.ancestry table) : after.Ordinary table := by
  intro name listed method holds
  rw [changes.enumerableNames_eq rooted known apart] at listed
  rw [changes.descriptor?_eq rooted known apart] at holds
  rcases ordinary name listed method holds with ⟨implemented, unhooked⟩
  have there := hasProcedure_of_implemented implemented
  exact ⟨(changes.extends_.isRequired there).trans implemented,
    (changes.extends_.hook there).trans unhooked⟩

end Store

variable {σ : Type} {meaning : Meaning σ}

/-! ### Faithful definers -/

/-- Whether a definer does what it is told: wherever the program gets to from here, it defines
a member that an object does not own yet, and changes nothing else that is there. -/
def Definer.Faithful (definer : Definer) (meaning : Meaning σ) (world : World σ) : Prop :=
  ∀ (now : World σ) (target : ObjectId) (name : String) (descriptor : Descriptor),
    (Passage.evolution σ).leads world now → now.store.hasObject target = true →
    now.store.ownDescriptor? target name = none →
    ∃ later, (definer.define meaning target name descriptor).run now = (.ok (), later) ∧
      Store.Adopts target [name] (fun _ => some descriptor) now.store later.store

theorem Definer.faithful_raw (meaning : Meaning σ) (world : World σ) :
    Definer.raw.Faithful meaning world := fun now _ name descriptor _ known unowned =>
  ⟨_, Member.run_define descriptor unowned, .of_storeMember now.store name descriptor known⟩

theorem Definer.Faithful.later {definer : Definer} {world now : World σ}
    (faithful : definer.Faithful meaning world)
    (evolution : (Passage.evolution σ).leads world now) : definer.Faithful meaning now :=
  fun after target name descriptor reached =>
    faithful after target name descriptor ((Passage.evolution σ).trans evolution reached)

namespace Merge

variable {plan : Plan} {now : World σ} {table : ObjectId}

theorem run_put_of_unowned {name : String} (descriptor : Descriptor)
    (unowned : now.store.ownDescriptor? plan.target name = none) :
    (put meaning plan name descriptor).run now =
      (plan.definer.define meaning plan.target name descriptor).run now := by
  rw [put]
  cases descriptor.value? with
  | none => rfl
  | some value =>
      simp only [Action.run_getStore_bind, Store.hasOwn_eq_isSome, unowned, Option.isSome_none]
      rfl

variable (known : now.store.hasObject plan.target = true)

section Members

variable (faithful : plan.definer.Faithful meaning now)

include known faithful

theorem exists_run_mixMember {name : String} (ordinary : now.store.Ordinary table)
    (listed : name ∈ now.store.enumerableNames table)
    (unowned : now.store.ownDescriptor? plan.target name = none) :
    ∃ later, (mixMember meaning plan table name []).run now = (.ok [], later) ∧
      Store.Adopts plan.target [name] (now.store.descriptor? table) now.store later.store := by
  rcases Store.mem_enumerableNames_iff.mp listed with ⟨_, resolved, _⟩
  rcases Option.map_eq_some_iff.mp resolved with ⟨⟨owner, descriptor⟩, found, rfl⟩
  rcases faithful now plan.target name descriptor ((Passage.evolution σ).refl now) known unowned
    with ⟨later, defined, adopts⟩
  have ran := (run_put_of_unowned descriptor unowned).trans defined
  refine ⟨later, ?_, adopts.congr fun other member => ?_⟩
  · cases method : descriptor.method? with
    | none =>
        rw [run_mixMember_of_value meaning plan [] found method, settledBy_nil]
        exact Action.run_bind_of_ok _ ran
    | some incoming =>
        rcases ordinary.method listed resolved method with ⟨implemented, unhooked⟩
        rw [run_mixMember_of_unhooked meaning plan [] found method unhooked, implemented,
          settledBy_nil]
        exact Action.run_bind_of_ok _ ran
  · rw [List.mem_singleton.mp member, resolved]

end Members

variable (evolving : meaning.Evolving)

include known evolving

private theorem exists_run_mixMembers (faithful : plan.definer.Faithful meaning now)
    (ordinary : now.store.Ordinary table) (rooted : now.store.Rooted)
    (there : now.store.hasObject table = true) (apart : plan.target ∉ now.store.ancestry table)
    {names : List String} (unique : names.Nodup)
    (listed : ∀ name ∈ names, name ∈ now.store.enumerableNames table ∧
      now.store.ownDescriptor? plan.target name = none) :
    ∃ later, (names.foldlM (fun held name => mixMember meaning plan table name held) []).run now =
        (.ok [], later) ∧
      Store.Adopts plan.target names (now.store.descriptor? table) now.store later.store := by
  induction names generalizing now with
  | nil => exact ⟨now, rfl, .refl _ _ now.store⟩
  | cons name names induction =>
      rcases listed name (List.mem_cons_self ..) with ⟨first, unowned⟩
      rcases exists_run_mixMember known faithful ordinary first unowned with
        ⟨between, ran, adopts⟩
      have evolution := (respects_evolution evolving plan name).mixMember table [] now
      rw [ran] at evolution
      have changes := adopts.toChangesOnly
      have rest : ∀ other ∈ names, other ∈ between.store.enumerableNames table ∧
          between.store.ownDescriptor? plan.target other = none := by
        intro other member
        have different : other ∉ [name] := fun same =>
          (List.nodup_cons.mp unique).1 (List.mem_singleton.mp same ▸ member)
        rw [changes.enumerableNames_eq rooted there apart, adopts.own, if_neg different]
        exact listed other (List.mem_cons_of_mem _ member)
      rcases induction (changes.extends_.object _ known).1 (faithful.later evolution)
        (ordinary.later changes rooted there apart) (changes.rooted rooted)
        (changes.extends_.object _ there).1 ((changes.ancestry_eq rooted there).symm ▸ apart)
        unique.of_cons rest with ⟨later, ranRest, adoptsRest⟩
      refine ⟨later, (Action.run_bind_of_ok _ ran).trans ranRest, ?_⟩
      exact adopts.trans (adoptsRest.congr fun other _ =>
        changes.descriptor?_eq rooted there apart other)

end Merge

/-- Merged into an object that owns none of its names, an ordinary table is adopted. -/
theorem exists_run_mixin_of_table {now : World σ} {target table : ObjectId} {definer : Definer}
    (evolving : meaning.Evolving) (faithful : definer.Faithful meaning now)
    (ordinary : now.store.Ordinary table) (rooted : now.store.Rooted)
    (known : now.store.hasObject target = true) (there : now.store.hasObject table = true)
    (apart : target ∉ now.store.ancestry table)
    (unowned : ∀ name, now.store.ownDescriptor? target name = none) :
    ∃ later, (mixin meaning target [.object table] definer).run now = (.ok [], later) ∧
      Store.Adopts target (now.store.enumerableNames table) (now.store.descriptor? table)
        now.store later.store := by
  let plan : Merge.Plan := ⟨target, definer, [.object table]⟩
  have target : now.store.hasObject plan.target = true := known
  rcases Merge.exists_run_mixMembers target evolving faithful ordinary rooted there apart
    (now.store.nodup_enumerableNames table) (fun name member => ⟨member, unowned name⟩)
    with ⟨later, ran, adopts⟩
  exact ⟨later, Action.run_bind_of_ok _ ran, adopts⟩

end TraitComposition
