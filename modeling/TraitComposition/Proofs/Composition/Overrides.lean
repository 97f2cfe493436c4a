import TraitComposition.Proofs.Composition.TwoTypes

/-!
Overrides that meet what they override. When two types are composed that resolve a name
to different methods, one of them may have overridden the other's method. Whether that
is noticed depends on which of the two comes second, on whether it owns its method, and
on the way the overridden method got into the type that overrides it.
-/
namespace TraitComposition.Composer

open Merge
open Store (AddsTable)

def Entered (store : Store) (type : Composite) (name : String) (method : ProcedureId) : Prop :=
  ∃ table ∈ type.bases.prototypes, store.dataValue? table name = some (.procedure method)

def OnLine (store : Store) (type : Composite) (name : String) (method : ProcedureId) : Prop :=
  ∃ level ∈ store.ancestry type.prototype,
    (store.ownDescriptor? level name).bind Descriptor.value? = some (.procedure method)

theorem chainHolds_chainOf_iff {store : Store} {type : Composite} {name : String}
    {method : ProcedureId} :
    store.chainHolds (chainOf type) name (.procedure method) = true ↔
      Entered store type name method := by
  simp only [Store.chainHolds_iff, FirstSeen.mem_ofList, Entered]

/-! ### The outcome under one name -/

namespace Decided

variable {store now later : Store} {base other : Composite} {name : String}
  {conflicts : List Conflict} (decided : Decided store base other name now later conflicts)
  (rooted : store.Rooted)

def outcome (store now : Store) (other : Composite) (name : String) : Resolution :=
  resolution now store.nextObject other.prototype (chainOf other) name

def member (store now : Store) (other : Composite) (name : String) : Descriptor :=
  contribution now store.nextObject other.prototype (chainOf other) name

include decided

omit rooted in
theorem no_conflict {result : Resolution} (weighing : outcome store now other name = result)
    (settled : ∀ existing, result ≠ .conflict existing) :
    ∀ conflict ∈ conflicts, conflict.member ≠ name := by
  intro conflict member under
  have rival := (decided.rivals conflict under).mp member
  unfold rivalry? at rival
  split at rival
  · next existing _ rivals _ => exact settled existing (weighing.symm.trans rivals)
  · cases rival

include rooted

section Bringing

variable {second : ProcedureId} (housesOther : store.Houses second other)
  {descriptor : Descriptor} (resolved : store.descriptor? other.prototype name = some descriptor)

include housesOther resolved

theorem member_of_copied (copied : outcome store now other name ≠ .keepDestination) :
    member store now other name = descriptor := by
  have same := decided.adds.descriptor?_eq rooted housesOther.hasObject_prototype name
  rw [member, contribution]
  split
  · next weighing => exact absurd weighing copied
  · rw [same, resolved, Option.getD_some]
  · rw [same, resolved, Option.getD_some]

private theorem mem_conflicts {existing incoming : ProcedureId}
    (method : descriptor.method? = some incoming)
    (rivals : outcome store now other name = .conflict existing) :
    ⟨name, existing, incoming⟩ ∈ conflicts := by
  have same := decided.adds.descriptor?_eq rooted housesOther.hasObject_prototype name
  apply (decided.rivals _ rfl).mpr
  rw [outcome] at rivals
  rw [rivalry?, rivals, same, resolved, Option.bind_some, method]

end Bringing

variable {first : ProcedureId} (houses : store.Houses first base)

include houses

theorem member_of_kept {existing : Value}
    (standing : store.dataValue? base.prototype name = some existing)
    (kept : outcome store now other name = .keepDestination) :
    (member store now other name).value? = some existing := by
  have same := decided.adds.descriptor?_nextObject rooted houses.hasObject_prototype
    decided.unowned
  rw [member, contribution, ← outcome, kept]
  cases found : store.descriptor? base.prototype name with
  | none =>
      rw [Store.dataValue?, found] at standing
      cases standing
  | some keeps =>
      rw [Store.dataValue?, found, Option.bind_some] at standing
      simp only [same, found, Option.getD_some, standing]

/-- Two different methods, of which none is a requirement, are weighed by the chains
that they are found in. -/
theorem outcome_of_rivals {second : ProcedureId} (housesOther : store.Houses second other)
    {owner : ObjectId} {descriptor : Descriptor} {incoming existing : ProcedureId}
    (found : store.lookup other.prototype name = some (owner, descriptor))
    (method : descriptor.method? = some incoming)
    (standing : store.dataValue? base.prototype name = some (.procedure existing))
    (different : existing ≠ incoming) (implemented : store.isRequired incoming = false)
    (implementing : store.isRequired existing = false) :
    outcome store now other name =
      if owner = other.prototype then
        if store.chainHolds (chainOf other) name (.procedure existing) then
          .incoming
        else if now.inherits store.nextObject name (.procedure incoming) then
          .keepDestination
        else
          .conflict existing
      else if store.chainHolds (chainOf other) name (.procedure incoming) then
        .keepDestination
      else if store.chainHolds (chainOf other) name (.procedure existing) then
        .incoming
      else
        .conflict existing := by
  have chain (method : Value) := decided.adds.chainHolds_eq rooted
    (fun table member => housesOther.known table (FirstSeen.mem_ofList.mp member)) name method
  have stays {procedure : ProcedureId} (implemented : store.isRequired procedure = false) :
      now.isRequired procedure = false :=
    (decided.adds.changes.extends_.isRequired
      (Store.hasProcedure_of_implemented implemented)).trans implemented
  have nothing : now.chainHolds [] name (.procedure incoming) = false := rfl
  rw [outcome, resolution, decided.adds.lookup_eq rooted housesOther.hasObject_prototype, found]
  simp only [method]
  rw [decided.adds.dataValue?_nextObject rooted houses.hasObject_prototype decided.unowned,
    standing, weighed, if_neg different, Rivalry.resolve]
  simp only [stays implemented, stays implementing, Rivalry.overridesExisting, chain, beq_iff_eq,
    nothing, Bool.or_false, Bool.false_eq_true, if_false]

theorem inherits_iff {method : ProcedureId} :
    now.inherits store.nextObject name (.procedure method) = true ↔
      OnLine store base name method :=
  decided.adds.inherits_nextObject_iff rooted houses.hasObject_prototype

end Decided

/-! ### Composing two types -/

section Composed

variable {σ : Type} (meaning : Meaning σ) (composer : Composer) {world : World σ}

/-- An override that comes first, and what it overrode second. The override is kept, with
no conflict, exactly if its type still delegates to an owner of the overridden method and
the override has not entered the other type, too. It is lost otherwise: silently if it
has, and else with a conflict, however plainly its type has overridden the method. -/
theorem override_kept_iff {sub base : ProcedureId} {subType baseType : Composite}
    (rooted : world.store.Rooted) (housesSub : world.store.Houses sub subType)
    (housesBase : world.store.Houses base baseType) (raw : subType.definer = none)
    {name : String} {descriptor : Descriptor} {overridden overriding : ProcedureId}
    (owned : world.store.ownDescriptor? baseType.prototype name = some descriptor)
    (enumerable : descriptor.enumerable = true) (method : descriptor.method? = some overridden)
    (resolved : world.store.dataValue? subType.prototype name = some (.procedure overriding))
    (different : overriding ≠ overridden)
    (implemented : world.store.isRequired overridden = false)
    (implementing : world.store.isRequired overriding = false)
    (plain : (world.store.procedure overridden).hook = none)
    (discreet : ∀ another ∈ world.store.enumerableNames baseType.prototype, another ≠ name →
      Discreet meaning world.store subType baseType another) :
    ∃ conflicts later,
      composer.Yields meaning [.procedure sub, .procedure base] world conflicts
        world.store.nextObject later ∧
      (((∀ conflict ∈ conflicts, conflict.member ≠ name) ∧
          later.store.dataValue? world.store.nextObject name = some (.procedure overriding)) ↔
        (¬Entered world.store baseType name overriding) ∧
          OnLine world.store subType name overridden) ∧
      (Entered world.store baseType name overriding ∨
          ¬OnLine world.store subType name overridden →
        later.store.dataValue? world.store.nextObject name = some (.procedure overridden) ∧
          (⟨name, overriding, overridden⟩ ∈ conflicts ↔
            ¬Entered world.store baseType name overriding)) := by
  have brought := Store.descriptor?_of_own owned
  rcases yields_of_types meaning composer rooted housesSub housesBase raw
    (Store.mem_enumerableNames_of_own owned enumerable)
    (hooked_of_plain brought method implemented plain) discreet
    with ⟨conflicts, now, merged, later, yields, decided, resolves⟩
  refine ⟨conflicts, later, yields, ?_⟩
  have weighing := decided.outcome_of_rivals rooted housesSub housesBase
    (Store.lookup_of_own owned) method resolved different implemented implementing
  rw [if_pos rfl] at weighing
  have lost (copied : Decided.outcome world.store now baseType name ≠ .keepDestination) :
      later.store.dataValue? world.store.nextObject name = some (.procedure overridden) := by
    rw [resolves, ← Decided.member, decided.member_of_copied rooted housesBase brought copied]
    exact Descriptor.value?_of_method? method
  have other : (some (.procedure overridden) : Option Value) ≠ some (.procedure overriding) := by
    simpa using different.symm
  rw [← chainHolds_chainOf_iff, ← decided.inherits_iff rooted housesSub]
  by_cases entered : world.store.chainHolds (chainOf baseType) name (.procedure overriding) = true
  · rw [if_pos entered] at weighing
    have quiet := decided.no_conflict weighing (by simp)
    rw [lost (by simp [weighing])]
    refine ⟨⟨fun keeps => absurd keeps.2 other, fun line => absurd entered line.1⟩, fun _ => ?_⟩
    exact ⟨rfl, fun member => absurd rfl (quiet _ member), fun missing => absurd entered missing⟩
  · rw [if_neg entered] at weighing
    by_cases line : now.inherits world.store.nextObject name (.procedure overridden) = true
    · rw [if_pos line] at weighing
      have kept := resolves.trans (decided.member_of_kept rooted housesSub resolved weighing)
      have quiet := decided.no_conflict weighing (by simp)
      refine ⟨⟨fun _ => ⟨entered, line⟩, fun _ => ⟨quiet, kept⟩⟩, fun lost => ?_⟩
      exact absurd line (lost.resolve_left entered)
    · rw [if_neg line] at weighing
      have rival := decided.mem_conflicts rooted housesBase brought method weighing
      rw [lost (by simp [weighing])]
      refine ⟨⟨fun keeps => absurd keeps.2 other, fun both => absurd both.2 line⟩, fun _ => ?_⟩
      exact ⟨rfl, fun _ => entered, fun _ => rival⟩

/-- A type that was composed of two others and of an override of what the second of them
holds. It delegates to the first alone. -/
def sidelinedType : Composite where
  procedure := ⟨5⟩
  prototype := ⟨3⟩
  bases := ⟨[], [⟨0⟩, ⟨1⟩, ⟨3⟩]⟩
  composer := {}

def overriddenType : Composite where
  procedure := ⟨4⟩
  prototype := ⟨1⟩
  bases := ⟨[], [⟨1⟩]⟩
  composer := {}

def sidelined : World Unit where
  store := {
    objects := #[
      {},
      { members := MemberTable.empty.insert "n" (.ofValue (.procedure ⟨1⟩)) },
      { members := MemberTable.empty.insert "n" (.ofValue (.procedure ⟨2⟩)) },
      { parent := some ⟨0⟩
        members := MemberTable.empty.insert "n" (.ofValue (.procedure ⟨2⟩)) }]
    procedures := #[
      { body := .required }, { body := .code ⟨0⟩ }, { body := .code ⟨1⟩ },
      { body := .composite ⟨0⟩ }, { body := .composite ⟨1⟩ }, { body := .composite ⟨2⟩ }]
    composites := #[
      { procedure := ⟨3⟩, prototype := ⟨0⟩, bases := ⟨[], [⟨0⟩]⟩, composer := {} },
      overriddenType, sidelinedType] }
  state := ()

/-- There the override is lost, and a conflict is reported between it and what it
overrode. -/
theorem override_lost_of_sidelined :
    ∃ conflicts later,
      ({} : Composer).Yields (.ofBudget 1) [.procedure ⟨5⟩, .procedure ⟨4⟩] sidelined conflicts ⟨4⟩
        later ∧
      later.store.dataValue? ⟨4⟩ "n" = some (.procedure ⟨1⟩) ∧ ⟨"n", ⟨2⟩, ⟨1⟩⟩ ∈ conflicts := by
  have houses : sidelined.store.Houses ⟨5⟩ sidelinedType := ⟨rfl, by decide, by decide⟩
  have housesOther : sidelined.store.Houses ⟨4⟩ overriddenType := ⟨rfl, by decide, by decide⟩
  have owned : sidelined.store.ownDescriptor? ⟨1⟩ "n" = some (.ofValue (.procedure ⟨1⟩)) :=
    MemberTable.find?_insert_same ..
  have resolved : sidelined.store.dataValue? ⟨3⟩ "n" = some (.procedure ⟨2⟩) :=
    Store.chainHolds_singleton.mp (by decide +kernel)
  have names : sidelined.store.enumerableNames ⟨1⟩ = ["n"] := by decide +kernel
  have entered : ¬Entered sidelined.store overriddenType "n" ⟨2⟩ := by
    rw [← chainHolds_chainOf_iff]
    decide +kernel
  have line : ¬OnLine sidelined.store sidelinedType "n" ⟨1⟩ := by
    have known := houses.hasObject_prototype
    rw [OnLine, ← (AddsTable.of_delegating known).inherits_nextObject_iff (by decide) known]
    decide +kernel
  rcases override_kept_iff (.ofBudget 1) {} (by decide) houses housesOther rfl owned rfl rfl
    resolved (by decide) rfl rfl rfl
    (fun another member different => absurd (List.mem_singleton.mp (names ▸ member)) different)
    with ⟨conflicts, later, yields, _, lost⟩
  rcases lost (.inr line) with ⟨copied, rival⟩
  exact ⟨conflicts, later, yields, copied, rival.mpr entered⟩

/-- An override that comes second, over a type that it has not entered. No conflict is
reported, and the override wins exactly if its type owns it: one that is inherited is
taken for a method that the first type has overridden. -/
theorem override_wins_iff_owned {first second : ProcedureId} {firstType secondType : Composite}
    (rooted : world.store.Rooted) (housesFirst : world.store.Houses first firstType)
    (housesSecond : world.store.Houses second secondType) (raw : firstType.definer = none)
    {name : String} {overridden overriding : ProcedureId}
    (listed : name ∈ world.store.enumerableNames secondType.prototype)
    (standing : world.store.dataValue? firstType.prototype name = some (.procedure overridden))
    (resolved : world.store.dataValue? secondType.prototype name = some (.procedure overriding))
    (different : overridden ≠ overriding)
    (implemented : world.store.isRequired overriding = false)
    (implementing : world.store.isRequired overridden = false)
    (plain : (world.store.procedure overriding).hook = none)
    (discreet : ∀ another ∈ world.store.enumerableNames secondType.prototype, another ≠ name →
      Discreet meaning world.store firstType secondType another)
    (overrides : Entered world.store secondType name overridden) :
    ∃ conflicts later,
      composer.Yields meaning [.procedure first, .procedure second] world conflicts
        world.store.nextObject later ∧
      (∀ conflict ∈ conflicts, conflict.member ≠ name) ∧
      later.store.dataValue? world.store.nextObject name =
        some (.procedure (if world.store.hasOwn secondType.prototype name then overriding
          else overridden)) := by
  rcases Store.mem_enumerableNames_iff.mp listed with ⟨_, described, _⟩
  rcases Option.map_eq_some_iff.mp described with ⟨⟨owner, descriptor⟩, looked, rfl⟩
  dsimp only at described
  have valued : descriptor.value? = some (.procedure overriding) := by
    rwa [Store.dataValue?, described, Option.bind_some] at resolved
  have method : descriptor.method? = some overriding := by
    rw [Descriptor.method?, valued]
    rfl
  rcases yields_of_types meaning composer rooted housesFirst housesSecond raw listed
    (hooked_of_plain described method implemented plain) discreet
    with ⟨conflicts, now, merged, later, yields, decided, resolves⟩
  refine ⟨conflicts, later, yields, ?_⟩
  have weighing := decided.outcome_of_rivals rooted housesFirst housesSecond looked method standing
    different implemented implementing
  have ownHolds : world.store.chainHolds (chainOf secondType) name (.procedure overriding) = true :=
    chainHolds_chainOf_iff.mpr ⟨secondType.prototype, housesSecond.own, resolved⟩
  rw [resolves, ← Decided.member, Store.hasOwn_eq_isSome]
  cases owns : world.store.ownDescriptor? secondType.prototype name with
  | some own =>
      rw [Store.lookup_of_own owns] at looked
      cases looked
      rw [if_pos rfl, if_pos (chainHolds_chainOf_iff.mpr overrides)] at weighing
      have quiet := decided.no_conflict weighing (by simp)
      have copied := decided.member_of_copied rooted housesSecond described (by simp [weighing])
      exact ⟨quiet, copied ▸ valued⟩
  | none =>
      have inherited : owner ≠ secondType.prototype := by
        intro equal
        rw [← equal, (Store.ownDescriptor?_of_lookup looked).2] at owns
        cases owns
      rw [if_neg inherited, if_pos ownHolds] at weighing
      have quiet := decided.no_conflict weighing (by simp)
      exact ⟨quiet, decided.member_of_kept rooted housesFirst standing weighing⟩

def inheritingType : Composite where
  procedure := ⟨5⟩
  prototype := ⟨4⟩
  bases := ⟨[], [⟨0⟩, ⟨2⟩, ⟨4⟩]⟩
  composer := {}

def rootType : Composite where
  procedure := ⟨3⟩
  prototype := ⟨0⟩
  bases := ⟨[], [⟨0⟩]⟩
  composer := {}

def inheriting : World Unit where
  store := {
    objects := #[
      { members := MemberTable.empty.insert "n" (.ofValue (.procedure ⟨1⟩)) },
      { members := MemberTable.empty.insert "n" (.ofValue (.procedure ⟨2⟩)) },
      { parent := some ⟨0⟩
        members := MemberTable.empty.insert "n" (.ofValue (.procedure ⟨2⟩)) },
      {}, { parent := some ⟨2⟩ }]
    procedures := #[
      { body := .required }, { body := .code ⟨0⟩ }, { body := .code ⟨1⟩ },
      { body := .composite ⟨0⟩ }, { body := .composite ⟨1⟩ }, { body := .composite ⟨2⟩ }]
    composites := #[
      rootType,
      { procedure := ⟨4⟩, prototype := ⟨2⟩, bases := ⟨[], [⟨0⟩, ⟨2⟩]⟩, composer := {} },
      inheritingType] }
  state := ()

theorem override_lost_of_inheriting :
    ∃ conflicts later,
      ({} : Composer).Yields (.ofBudget 1) [.procedure ⟨3⟩, .procedure ⟨5⟩] inheriting conflicts
        ⟨5⟩ later ∧
      (∀ conflict ∈ conflicts, conflict.member ≠ "n") ∧
      later.store.dataValue? ⟨5⟩ "n" = some (.procedure ⟨1⟩) := by
  have houses : inheriting.store.Houses ⟨3⟩ rootType := ⟨rfl, by decide, by decide⟩
  have housesOther : inheriting.store.Houses ⟨5⟩ inheritingType := ⟨rfl, by decide, by decide⟩
  have standing : inheriting.store.dataValue? ⟨0⟩ "n" = some (.procedure ⟨1⟩) :=
    Store.chainHolds_singleton.mp (by decide +kernel)
  have resolved : inheriting.store.dataValue? ⟨4⟩ "n" = some (.procedure ⟨2⟩) :=
    Store.chainHolds_singleton.mp (by decide +kernel)
  have overrides : Entered inheriting.store inheritingType "n" ⟨1⟩ :=
    chainHolds_chainOf_iff.mp (by decide +kernel)
  have names : inheriting.store.enumerableNames ⟨4⟩ = ["n"] := by decide +kernel
  exact override_wins_iff_owned (.ofBudget 1) {} (by decide) houses housesOther rfl
    (names ▸ List.mem_singleton.mpr rfl) standing resolved (by decide) rfl rfl rfl
    (fun another member different => absurd (List.mem_singleton.mp (names ▸ member)) different)
    overrides

end Composed

end TraitComposition.Composer
