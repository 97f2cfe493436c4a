import TraitComposition.Proofs.Merge.Patches
import TraitComposition.Proofs.Store.Redefinition

/-!
Bare tables of patches, merged again. Laying the fields of a patch over what they came to gives the
same descriptor, so the second merge defines each member as what it is. Whether that goes through is
the same question as for any other member.
-/
namespace TraitComposition

variable {σ : Type}

namespace Patch

variable (patch : Patch) (inherited : Option Descriptor)

private theorem laidOver_laidOver :
    patch.laidOver (some (patch.laidOver inherited)) = patch.laidOver inherited := by
  rcases patch with ⟨_ | value, _ | writable, _ | getter, _ | setter, _ | _, _ | _⟩ <;>
    rcases inherited with _ | ⟨_ | _, _, _⟩ <;> rfl

theorem mixes_laidOver (fits : patch.mixes inherited = false) :
    patch.mixes (some (patch.laidOver inherited)) = false := by
  rcases patch with ⟨_ | value, _ | writable, _ | getter, _ | setter, _, _⟩ <;>
    rcases inherited with _ | ⟨_ | _, _, _⟩ <;> first | rfl | cases fits

end Patch

/-! ### Tables of patches -/

namespace Store

/-- Whether a table shows a decorator under a name that patches, with no other decorator or
requirement among the fields. -/
structure GivesPatch (store : Store) (table : ObjectId) (name : String) (patch : Patch) : Prop where
  plain : patch.Plain store
  shown : ∃ decorator, store.dataValue? table name = some (.procedure decorator) ∧
    store.hasProcedure decorator = true ∧ (store.procedure decorator).hook = some (.patch patch)

def Settles (store : Store) (table target : ObjectId) (name : String) : Prop :=
  ∃ patch descriptor, store.GivesPatch table name patch ∧
    store.ownDescriptor? target name = some descriptor ∧
    patch.mixes (some descriptor) = false ∧ patch.laidOver (some descriptor) = descriptor

/-- Whether a table shows nothing but patches, and does not delegate to the object that they are
merged into. -/
structure PatchesOnly (store : Store) (table target : ObjectId) : Prop where
  rooted : store.Rooted
  there : store.hasObject table = true
  known : store.hasObject target = true
  apart : target ∉ store.ancestry table
  gives : ∀ name ∈ store.enumerableNames table, ∃ patch, store.GivesPatch table name patch

namespace PatchesOnly

variable {before after : Store} {table target : ObjectId}
  (patches : before.PatchesOnly table target) (changes : ChangesOnly target before after)

include patches changes

private theorem givesPatch {name : String} {patch : Patch}
    (gives : before.GivesPatch table name patch) : after.GivesPatch table name patch where
  plain :=
    { value := fun value given => (gives.plain.value value given).extends changes.extends_
      getter := fun getter given => (gives.plain.getter getter given).extends changes.extends_
      setter := fun setter given => (gives.plain.setter setter given).extends changes.extends_ }
  shown := by
    rcases gives.shown with ⟨decorator, shown, there, hooked⟩
    rw [changes.dataValue?_eq patches.rooted patches.there patches.apart]
    exact ⟨decorator, shown, (changes.extends_.procedure decorator there).1,
      (changes.extends_.hook there).trans hooked⟩

private theorem enumerableNames_eq : after.enumerableNames table = before.enumerableNames table :=
  changes.enumerableNames_eq patches.rooted patches.there patches.apart

private theorem later : after.PatchesOnly table target where
  rooted := changes.rooted patches.rooted
  there := (changes.extends_.object table patches.there).1
  known := (changes.extends_.object target patches.known).1
  apart := by
    rw [changes.ancestry_eq patches.rooted patches.there]
    exact patches.apart
  gives name listed := by
    rw [patches.enumerableNames_eq changes] at listed
    rcases patches.gives name listed with ⟨patch, gives⟩
    exact ⟨patch, patches.givesPatch changes gives⟩

end PatchesOnly

end Store

namespace Merge

variable {budget : Nat} {plan : Plan} {table : ObjectId} {name : String} {patch : Patch}

variable (budget plan) in
private theorem exists_run_mixMember_of_patch {now : World σ}
    (gives : now.store.GivesPatch table name patch) :
    ∃ store, now.store.OnlyAdds store ∧
      (mixMember (.ofBudget (budget + 1)) plan table name []).run now =
        if patch.mixes (now.store.descriptor? plan.target name) then
          (.error (.mixedFields name), { now with store := store })
        else
          (Member.define plan.target name
              (patch.laidOver (now.store.descriptor? plan.target name)) >>= fun _ =>
            pure []).run { now with store := store } := by
  rcases gives.shown with ⟨decorator, shown, _, hooked⟩
  rcases Option.bind_eq_some_iff.mp shown with ⟨_, resolved, valued⟩
  rcases Option.map_eq_some_iff.mp resolved with ⟨⟨owner, descriptor⟩, found, rfl⟩
  rcases @Decorator.exists_run_installPatch _ (.ofBudget budget) _ _ plan.target gives.plain name
    with ⟨store, adds, ran⟩
  have method : descriptor.method? = some decorator := by
    rw [Descriptor.method?, valued]
    rfl
  refine ⟨store, adds, ?_⟩
  rw [run_mixMember_of_hook _ plan [] found method hooked]
  change (Decorator.installPatch (.ofBudget budget) patch plan.target name >>= fun _ =>
    pure []).run now = _
  split at ran
  · next mixes => rw [if_pos mixes, Action.run_bind_of_error _ ran]
  · next fits => rw [if_neg fits, Action.run_bind, ran, ← Action.run_bind]

/-! ### The first merge -/

theorem patched_of_mixMember {now later : World σ} {left : List Conflict}
    (known : now.store.hasObject plan.target = true)
    (gives : now.store.GivesPatch table name patch)
    (ran : (mixMember (.ofBudget (budget + 1)) plan table name []).run now = (.ok left, later)) :
    left = [] ∧ later = { now with store := later.store } ∧
      now.store.Confined plan.target [name] later.store ∧
      patch.mixes (now.store.descriptor? plan.target name) = false ∧
      later.store.ownDescriptor? plan.target name =
        some (patch.laidOver (now.store.descriptor? plan.target name)) := by
  rcases exists_run_mixMember_of_patch budget plan gives with ⟨store, adds, runs⟩
  rw [runs] at ran
  split at ran
  · cases ran
  · next fits =>
    rcases Action.succeeded_of_bind ran with ⟨_, between, defined, ended⟩
    rw [Member.define, Action.run_getStore_bind] at defined
    split at defined
    · cases defined
      cases ended
      have there := (adds.extends_.object plan.target known).1
      exact ⟨rfl, rfl, (adds.confined known []).trans (.of_storeMember store plan.target name _),
        Bool.eq_false_iff.mpr fits,
        Store.ownDescriptor?_storeMember_same store plan.target name _ there⟩
    · cases defined

private theorem settled_of_mixMembers {names : List String} (nodup : names.Nodup)
    {now later : World σ} {left : List Conflict} (patches : now.store.PatchesOnly table plan.target)
    (listed : ∀ name ∈ names, name ∈ now.store.enumerableNames table)
    (ran : (names.foldlM (fun held name =>
      mixMember (.ofBudget (budget + 1)) plan table name held) []).run now = (.ok left, later)) :
    left = [] ∧ later = { now with store := later.store } ∧
      now.store.Confined plan.target names later.store ∧
      ∀ name ∈ names, later.store.Settles table plan.target name := by
  induction names generalizing now with
  | nil =>
      cases ran
      exact ⟨rfl, rfl, .refl plan.target _, nofun⟩
  | cons name names induction =>
      rw [List.nodup_cons] at nodup
      rw [List.foldlM_cons] at ran
      rcases Action.succeeded_of_bind ran with ⟨held, between, ranFirst, ranRest⟩
      rcases patches.gives name (listed name List.mem_cons_self) with ⟨patch, gives⟩
      rcases patched_of_mixMember patches.known gives ranFirst with
        ⟨rfl, first, confined, fits, owned⟩
      have changes := confined.toChangesOnly
      rcases induction nodup.2 (patches.later changes) (fun other member => by
          rw [patches.enumerableNames_eq changes]
          exact listed other (List.mem_cons_of_mem name member)) ranRest with
        ⟨rfl, rest, confinedRest, settled⟩
      refine ⟨rfl, ?_, confined.trans confinedRest, ?_⟩
      · rw [rest, first]
      · intro other member
        rcases List.mem_cons.mp member with rfl | member
        · refine ⟨patch, _, ?_, (confinedRest.others other nodup.1).trans owned,
            patch.mixes_laidOver _ fits, patch.laidOver_laidOver _⟩
          exact patches.givesPatch (changes.trans confinedRest.toChangesOnly) gives
        · exact settled other member

/-! ### The second merge -/

variable (budget) in
theorem exists_run_mixMember_of_settles {now : World σ}
    (patches : now.store.PatchesOnly table plan.target)
    (settles : now.store.Settles table plan.target name) :
    ∃ store, now.store.OnlyAdds store ∧
      (mixMember (.ofBudget (budget + 1)) plan table name []).run now =
        (if now.store.refusesItself plan.target name then .error (.notConfigurable name)
          else .ok [], { now with store := store }) := by
  rcases settles with ⟨patch, descriptor, gives, owned, fits, same⟩
  rcases exists_run_mixMember_of_patch budget plan gives with ⟨store, adds, ran⟩
  have ownedThen : store.ownDescriptor? plan.target name = some descriptor := by
    rw [Store.ownDescriptor?, adds.members_eq patches.known]
    exact owned
  refine ⟨store, adds, ?_⟩
  rw [ran, Store.descriptor?_of_own owned, fits, same, if_neg Bool.false_ne_true,
    Store.refusesItself, owned, Option.any_some, Action.run_bind,
    Member.run_define_self { now with store := store } ownedThen]
  cases descriptor.refusesItself <;> rfl

variable (budget) in
theorem exists_run_mixMembers_of_settles (names : List String) (now : World σ)
    (patches : now.store.PatchesOnly table plan.target)
    (settles : ∀ name ∈ names, now.store.Settles table plan.target name) :
    ∃ store, now.store.OnlyAdds store ∧
      (names.foldlM (fun held name =>
        mixMember (.ofBudget (budget + 1)) plan table name held) []).run now =
        (match names.find? (now.store.refusesItself plan.target) with
          | some name => .error (.notConfigurable name)
          | none => .ok [], { now with store := store }) := by
  induction names generalizing now with
  | nil => exact ⟨now.store, .refl now.store, rfl⟩
  | cons name names induction =>
      rcases exists_run_mixMember_of_settles budget patches
        (settles name List.mem_cons_self) with ⟨between, adds, ran⟩
      rw [List.find?_cons]
      cases refuses : now.store.refusesItself plan.target name with
      | true =>
          rw [refuses, if_pos rfl] at ran
          refine ⟨between, adds, ?_⟩
          rw [List.foldlM_cons, Action.run_bind_of_error _ ran]
      | false =>
          rw [refuses, if_neg Bool.false_ne_true] at ran
          have own (other : String) : between.ownDescriptor? plan.target other =
              now.store.ownDescriptor? plan.target other := by
            rw [Store.ownDescriptor?, Store.ownDescriptor?, adds.members_eq patches.known]
          have changes := adds.changesOnly plan.target
          have stillSettles : ∀ other ∈ names, between.Settles table plan.target other := by
            intro other member
            rcases settles other (List.mem_cons_of_mem name member) with
              ⟨patch, descriptor, gives, owned, settled⟩
            exact ⟨patch, descriptor, patches.givesPatch changes gives, (own other).trans owned,
              settled⟩
          rcases induction { now with store := between } (patches.later changes)
            stillSettles with ⟨store, addsRest, ranRest⟩
          have refusals : between.refusesItself plan.target = now.store.refusesItself plan.target :=
            funext fun other => congrArg (Option.any Descriptor.refusesItself) (own other)
          refine ⟨store, adds.trans addsRest, ?_⟩
          rw [List.foldlM_cons, Action.run_bind_of_ok _ ran, ranRest]
          dsimp only
          rw [refusals]

end Merge

/-! ### Merging twice -/

theorem Merge.run_mixin_of_object {meaning : Meaning σ} {target table : ObjectId}
    {definer : Definer} (rest : List Value) (world : World σ) :
    (mixin meaning target (.object table :: rest) definer).run world =
      ((world.store.enumerableNames table).foldlM (fun held name =>
          mixMember meaning ⟨target, definer, [.object table]⟩ table name held) [] >>=
        mixSources meaning ⟨target, definer, .object table :: rest⟩ 1 rest).run world := by
  rw [mixin, mixSources, mixSource, Action.run_bind, Action.run_getStore_bind, ← Action.run_bind]
  rfl

/-- The number that is not one apart, it makes no difference whether something is defined once or
again: a member defined as what it is, and a bare table of patches merged anew, on its own or as the
next source, leave everything that was there as it was. What is locked with such a number is
refused, and the first such name ends the second merge. -/
theorem redefines_as_is :
    (∀ (world : World σ) {object : ObjectId} {name : String} {descriptor : Descriptor},
      world.store.ownDescriptor? object name = some descriptor →
      (Member.define object name descriptor).run world =
        (if descriptor.refusesItself then .error (.notConfigurable name) else .ok (), world)) ∧
    ∀ {budget : Nat} {definer : Definer} {target table : ObjectId} {world once : World σ}
      {conflicts : List Conflict},
      world.store.PatchesOnly table target →
      (mixin (.ofBudget (budget + 1)) target [.object table] definer).run world =
        (.ok conflicts, once) →
      conflicts = [] ∧
      (mixin (.ofBudget (budget + 1)) target [.object table, .object table] definer).run world =
        (mixin (.ofBudget (budget + 1)) target [.object table] definer).run once ∧
      ∃ store, once.store.OnlyAdds store ∧
        (mixin (.ofBudget (budget + 1)) target [.object table] definer).run once =
          (match (once.store.enumerableNames table).find? (once.store.refusesItself target) with
            | some name => .error (.notConfigurable name)
            | none => .ok [], { once with store := store }) := by
  refine ⟨Member.run_define_self, ?_⟩
  intro budget definer target table world once conflicts patches ran
  let plan : Merge.Plan := ⟨target, definer, [.object table]⟩
  rw [Merge.run_mixin_of_object] at ran
  rcases Action.succeeded_of_bind ran with ⟨held, between, mixed, ended⟩
  cases ended
  have nodup := Store.nodup_enumerableNames world.store table
  have patchesPlan : world.store.PatchesOnly table plan.target := patches
  rcases Merge.settled_of_mixMembers nodup patchesPlan (fun _ => id) mixed with
    ⟨rfl, _, confined, settled⟩
  have changes := confined.toChangesOnly
  have names := patches.enumerableNames_eq changes
  rcases Merge.exists_run_mixMembers_of_settles budget (once.store.enumerableNames table) once
    (patchesPlan.later changes) (names ▸ settled) with ⟨store, adds, ranAgain⟩
  refine ⟨rfl, ?_, store, adds, ?_⟩
  · rw [Merge.run_mixin_of_object, Action.run_bind_of_ok _ mixed]
    rfl
  · rw [Merge.run_mixin_of_object, Action.run_bind, ranAgain]
    cases (once.store.enumerableNames table).find? (once.store.refusesItself target) <;> rfl

/-- A table of two patches, one of which gives a number that is not one, an empty object, and one
with two locked members. -/
def patchingNaN : World Unit where
  store := {
    objects := #[
      { members := .ofEntries [("kind", .ofValue (.procedure ⟨1⟩)),
          ("size", .ofValue (.procedure ⟨2⟩))] },
      {},
      { members := .ofEntries [("kind", ⟨.data (.text "plain") false, true, false⟩),
          ("size", ⟨.data (.list [.number (0 / 0)]) false, true, false⟩)] }]
    procedures := #[{ body := .required },
      { body := .unapplied none, hook := some (.patch { value := some (.text "plain") }) },
      { body := .unapplied none, hook := some (.patch { value := some (.number (0 / 0)) }) }] }
  state := ()

/-- The text is defined again and the number is not; merged twice, the patches stop at it. -/
theorem redefines_as_is_but_nan :
    (Member.define ⟨2⟩ "kind" ⟨.data (.text "plain") false, true, false⟩).run patchingNaN =
        (.ok (), patchingNaN) ∧
      (Member.define ⟨2⟩ "size" ⟨.data (.list [.number (0 / 0)]) false, true, false⟩).run
          patchingNaN = (.error (.notConfigurable "size"), patchingNaN) ∧
      ∃ once store, (mixin (.ofBudget 1) ⟨1⟩ [.object ⟨0⟩] .raw).run patchingNaN = (.ok [], once) ∧
        once.store.OnlyAdds store ∧
        (mixin (.ofBudget 1) ⟨1⟩ [.object ⟨0⟩] .raw).run once =
          (.error (.notConfigurable "size"), { once with store := store }) := by
  have patches : patchingNaN.store.PatchesOnly ⟨0⟩ ⟨1⟩ := by
    refine ⟨Store.rooted_iff.mpr (by decide), by decide, by decide, by decide, ?_⟩
    intro name listed
    have names : patchingNaN.store.enumerableNames ⟨0⟩ = ["kind", "size"] := by decide
    rw [names] at listed
    rcases List.mem_pair.mp listed with rfl | rfl
    · exact ⟨{ value := some (.text "plain") },
        ⟨by rintro _ ⟨⟩ _ ⟨⟩, nofun, nofun⟩, ⟨1⟩, rfl, rfl, rfl⟩
    · exact ⟨{ value := some (.number (0 / 0)) },
        ⟨by rintro _ ⟨⟩ _ ⟨⟩, nofun, nofun⟩, ⟨2⟩, rfl, rfl, rfl⟩
  have ran : (mixin (.ofBudget 1) ⟨1⟩ [.object ⟨0⟩] .raw).run patchingNaN =
      (.ok [], ((mixin (.ofBudget 1) ⟨1⟩ [.object ⟨0⟩] .raw).run patchingNaN).2) :=
    Action.run_eq_of_toOption _ _ [] (by decide +kernel)
  rcases redefines_as_is (σ := Unit) with ⟨defines, merges⟩
  rcases merges patches ran with ⟨_, _, store, adds, again⟩
  refine ⟨?_, ?_, _, store, ran, adds, again.trans ?_⟩
  · exact defines patchingNaN rfl
  · exact (defines patchingNaN rfl).trans (by rw [if_pos (by decide)])
  · rw [show List.find? _ _ = some "size" by decide +kernel]

end TraitComposition
