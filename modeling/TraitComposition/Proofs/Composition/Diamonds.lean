import TraitComposition.Proofs.Composition.Extensions
import TraitComposition.Proofs.Composition.Overrides

/-!
Diamonds. Two types extend a third one, and are composed. What the second of them inherits
meets what the first has put in its place: a method gives way to the method that overrides
it, but any other member is copied over what the first type holds.
-/
namespace TraitComposition.Composer

open Merge

variable {σ : Type} {meaning : Meaning σ}

/-! ### What is inherited meets what has taken its place -/

/-- Whether a member that the first type holds survives the one that the second inherits. -/
def survives (overriding inherited : Descriptor) : Bool :=
  !inherited.enumerable || (overriding.method?.isSome && inherited.method?.isSome)

section Meeting

variable {world : World σ} (rooted : world.store.Rooted) {first second : ProcedureId}
  {base other : Composite} (houses : world.store.Houses first base)
  (housesOther : world.store.Houses second other) {name : String} {owner : ObjectId}
  {overriding inherited : Descriptor}
  (standing : world.store.descriptor? base.prototype name = some overriding)
  (found : world.store.lookup other.prototype name = some (owner, inherited))
  (apart : owner ≠ other.prototype)
  (implementing : ∀ method, overriding.method? = some method →
    world.store.isRequired method = false)

include rooted houses housesOther standing found apart

section Outcome

variable {now later : Store} {conflicts : List Conflict}
  (decided : Decided world.store base other name now later conflicts)

include implementing decided

private theorem Decided.outcome_of_inherited :
    Decided.outcome world.store now other name =
      match overriding.method?, inherited.method? with
      | some existing, some incoming => if existing = incoming then .incoming else .keepDestination
      | _, _ => .incoming := by
  have current : now.dataValue? world.store.nextObject name = overriding.value? := by
    rw [decided.adds.dataValue?_nextObject rooted houses.hasObject_prototype decided.unowned,
      Store.dataValue?, standing, Option.bind_some]
  rw [Decided.outcome, resolution, decided.adds.lookup_eq rooted housesOther.hasObject_prototype,
    found]
  dsimp only
  rw [current, beq_false_of_ne apart]
  cases brings : inherited.method? with
  | none => cases overriding.method? <;> rfl
  | some incoming =>
      cases holds : overriding.method? with
      | none => exact weighed_of_no_method holds
      | some existing =>
          have implemented := implementing existing holds
          have stays := decided.adds.changes.extends_.isRequired
            (Store.hasProcedure_of_implemented implemented)
          rw [Descriptor.value?_of_method? holds]
          apply weighed_of_inherited (stays.trans implemented)
          apply Store.chainHolds_iff.mpr
          refine ⟨other.prototype, FirstSeen.mem_ofList.mpr housesOther.own, ?_⟩
          rw [decided.adds.dataValue?_eq rooted housesOther.hasObject_prototype, Store.dataValue?,
            Store.descriptor?, found, Option.map_some, Option.bind_some,
            Descriptor.value?_of_method? brings]

private theorem Decided.value?_of_inherited (enumerable : inherited.enumerable = true) :
    (Decided.member world.store now other name).value? =
      if survives overriding inherited then overriding.value? else inherited.value? := by
  have outcome := decided.outcome_of_inherited rooted houses housesOther standing found apart
    implementing
  have resolved : world.store.descriptor? other.prototype name = some inherited := by
    rw [Store.descriptor?, found, Option.map_some]
  have copied := decided.member_of_copied rooted housesOther resolved
  cases holds : overriding.method? with
  | none =>
      rw [holds] at outcome
      rw [copied (by simp [outcome])]
      simp [survives, enumerable, holds]
  | some existing =>
      cases brings : inherited.method? with
      | none =>
          rw [holds, brings] at outcome
          rw [copied (by simp [outcome])]
          simp [survives, enumerable, brings]
      | some incoming =>
          rw [holds, brings] at outcome
          have survived : survives overriding inherited = true := by
            simp [survives, holds, brings]
          have valued := Descriptor.value?_of_method? holds
          rw [if_pos survived, valued]
          by_cases same : existing = incoming
          · rw [copied (by simp [outcome, same]), same]
            exact Descriptor.value?_of_method? brings
          · have dataValue : world.store.dataValue? base.prototype name =
                some (.procedure existing) := by
              rw [Store.dataValue?, standing, Option.bind_some, valued]
            exact decided.member_of_kept rooted houses dataValue (by simp [outcome, same])

end Outcome

include implementing

theorem yields_of_inherited (meaning : Meaning σ) (composer : Composer) (raw : base.definer = none)
    (discreet : ∀ another ∈ world.store.enumerableNames other.prototype, another ≠ name →
      Discreet meaning world.store base other another) :
    ∃ conflicts later,
      composer.Yields meaning [.procedure first, .procedure second] world conflicts
        world.store.nextObject later ∧
      (∀ conflict ∈ conflicts, conflict.member ≠ name) ∧
      later.store.dataValue? world.store.nextObject name =
        if survives overriding inherited then overriding.value? else inherited.value? := by
  have resolved : world.store.descriptor? other.prototype name = some inherited := by
    rw [Store.descriptor?, found, Option.map_some]
  cases enumerable : inherited.enumerable with
  | false =>
      have unlisted : name ∉ world.store.enumerableNames other.prototype := by
        intro listed
        rcases Store.mem_enumerableNames_iff.mp listed with ⟨descriptor, described, shown⟩
        rw [resolved] at described
        cases described
        rw [enumerable] at shown
        cases shown
      rcases yields_of_unlisted meaning composer rooted houses housesOther raw unlisted
        (fun another member => discreet another member fun equal => unlisted (equal ▸ member))
        with ⟨conflicts, later, yields, quiet, kept⟩
      refine ⟨conflicts, later, yields, quiet, ?_⟩
      rw [Store.dataValue?, kept, standing, Option.bind_some]
      simp [survives, enumerable]
  | true =>
      have listed := Store.mem_enumerableNames_iff.mpr ⟨inherited, resolved, enumerable⟩
      rcases yields_of_silent meaning composer rooted houses housesOther raw listed
        (silent_of_inherited rooted housesOther found apart) discreet
        with ⟨conflicts, now, merged, later, yields, decided, resolves⟩
      have outcome := decided.outcome_of_inherited rooted houses housesOther standing found apart
        implementing
      refine ⟨conflicts, later, yields, decided.no_conflict outcome fun existing => ?_, ?_⟩
      · split
        · split <;> simp
        · simp
      · rw [Store.dataValue?, resolves, Option.bind_some, ← Decided.member]
        exact decided.value?_of_inherited rooted houses housesOther standing found apart
          implementing enumerable

end Meeting

/-! ### The diamond -/

section Diamond

variable (evolving : meaning.Evolving) (composer : Composer) {world : World σ} {type : Composite}
  {left right : ObjectId} (rooted : world.store.Rooted)
  (houses : world.store.Houses type.procedure type)
  (faithful : type.definition.Faithful meaning world)
  (knownLeft : world.store.hasObject left = true) (ordinaryLeft : world.store.Ordinary left)
  (knownRight : world.store.hasObject right = true) (ordinaryRight : world.store.Ordinary right)
  {name : String} {overriding inherited : Descriptor}
  (listed : name ∈ world.store.enumerableNames left)
  (defined : world.store.descriptor? left name = some overriding)
  (unlisted : name ∉ world.store.enumerableNames right)
  (resolved : world.store.descriptor? type.prototype name = some inherited)

include evolving rooted houses faithful knownLeft ordinaryLeft knownRight ordinaryRight listed
  defined unlisted resolved

/-- Two types extend one type, with ordinary tables of which only the first has a member under
a name that the type resolves. In the composition of the two, without a conflict under the
name, the member of the table survives if it is a method and what the type resolves is one,
too, or is not enumerable. Any other member is lost: there the second type brings what it
inherits. -/
theorem diamond_resolves :
    ∃ (first second : Composite) (between extended : World σ) (conflicts : List Conflict)
        (later : World σ),
      (type.extend meaning [.object left]).run world = (.ok first.procedure, between) ∧
      (type.extend meaning [.object right]).run between = (.ok second.procedure, extended) ∧
      extended.store.composite? first.procedure = some first ∧
      extended.store.dataValue? first.prototype name = overriding.value? ∧
      composer.Yields meaning [.procedure first.procedure, .procedure second.procedure] extended
        conflicts extended.store.nextObject later ∧
      (∀ conflict ∈ conflicts, conflict.member ≠ name) ∧
      later.store.dataValue? extended.store.nextObject name =
        if survives overriding inherited then overriding.value? else inherited.value? := by
  rcases exists_run_extend evolving rooted houses faithful knownLeft ordinaryLeft with
    ⟨first, between, ranFirst, extendedFirst⟩
  have evolution := evolving_compose evolving type.composer
    [.procedure type.procedure, .object left] world
  rw [← Composite.extend, ranFirst] at evolution
  have changes := extendedFirst.adds.changes
  have apart := Store.not_mem_ancestry_nextObject rooted knownRight
  have rootedBetween := changes.rooted rooted
  have housesBetween := houses.later changes
  have ordinary := ordinaryRight.later changes rooted knownRight apart
  rcases exists_run_extend evolving rootedBetween housesBetween (faithful.later evolution)
    (changes.extends_.object _ knownRight).1 ordinary with
    ⟨second, extended, ranSecond, extendedSecond⟩
  -- What the two types resolve once both are there.
  have standing : extended.store.descriptor? first.prototype name = some overriding := by
    rw [extendedSecond.adds.descriptor?_eq rootedBetween extendedFirst.houses.hasObject_prototype]
    exact descriptor?_of_extended_listed extendedFirst listed defined
  have unlistedBetween : name ∉ between.store.enumerableNames right := by
    rwa [changes.enumerableNames_eq rooted knownRight apart]
  rcases lookup_of_extended_unlisted extendedSecond rootedBetween housesBetween unlistedBetween
    with ⟨same, passed⟩
  rcases Option.map_eq_some_iff.mp resolved with ⟨⟨owner, _⟩, looked, rfl⟩
  have found := same.trans
    ((extendedFirst.adds.lookup_eq rooted houses.hasObject_prototype name).trans looked)
  have extends_ := changes.extends_.trans extendedSecond.adds.changes.extends_
  have implementing (method : ProcedureId) (holds : overriding.method? = some method) :
      extended.store.isRequired method = false := by
    rcases ordinaryLeft.method listed defined holds with ⟨implemented, _⟩
    exact (extends_.isRequired (Store.hasProcedure_of_implemented implemented)).trans implemented
  have housesFirst := extendedFirst.houses.later extendedSecond.adds.changes
  rcases yields_of_inherited (extendedSecond.adds.changes.rooted rootedBetween) housesFirst
    extendedSecond.houses standing found (passed _ _ found) implementing meaning composer
    extendedFirst.raw
    (fun another shown _ => (silent_of_extended extendedSecond rootedBetween housesBetween
      ordinary first shown).discreet meaning)
    with ⟨conflicts, later, yields, quiet, survived⟩
  refine ⟨first, second, between, extended, conflicts, later, ranFirst, ranSecond,
    housesFirst.found, ?_, yields, quiet, survived⟩
  rw [Store.dataValue?, standing, Option.bind_some]

end Diamond

def rootOfDiamond : Composite where
  procedure := ⟨3⟩
  prototype := ⟨0⟩
  bases := ⟨[], [⟨0⟩]⟩
  composer := {}

def diamondOf (inherited overriding : Value) : World Unit where
  store := {
    objects := #[
      { members := MemberTable.empty.insert "n" (.ofValue inherited) },
      { members := MemberTable.empty.insert "n" (.ofValue overriding) },
      { members := MemberTable.empty.insert "m" (.ofValue (.text "three")) }]
    procedures := #[
      { body := .required }, { body := .code ⟨0⟩ }, { body := .code ⟨1⟩ },
      { body := .composite ⟨0⟩ }]
    composites := #[rootOfDiamond] }
  state := ()

theorem diamond_keeps_method :
    ∃ (first second : Composite) (between extended : World Unit) (conflicts : List Conflict)
        (later : World Unit),
      (rootOfDiamond.extend (.ofBudget 1) [.object ⟨1⟩]).run
          (diamondOf (.procedure ⟨1⟩) (.procedure ⟨2⟩)) = (.ok first.procedure, between) ∧
      (rootOfDiamond.extend (.ofBudget 1) [.object ⟨2⟩]).run between =
        (.ok second.procedure, extended) ∧
      ({} : Composer).Yields (.ofBudget 1)
        [.procedure first.procedure, .procedure second.procedure] extended conflicts
        extended.store.nextObject later ∧
      later.store.dataValue? extended.store.nextObject "n" = some (.procedure ⟨2⟩) := by
  let start := diamondOf (.procedure ⟨1⟩) (.procedure ⟨2⟩)
  have resolved : start.store.descriptor? ⟨0⟩ "n" = some (.ofValue (.procedure ⟨1⟩)) :=
    Store.descriptor?_of_own (MemberTable.find?_insert_same ..)
  have defined : start.store.descriptor? ⟨1⟩ "n" = some (.ofValue (.procedure ⟨2⟩)) :=
    Store.descriptor?_of_own (MemberTable.find?_insert_same ..)
  have namesLeft : start.store.enumerableNames ⟨1⟩ = ["n"] := by decide +kernel
  have namesRight : start.store.enumerableNames ⟨2⟩ = ["m"] := by decide +kernel
  have ordinaryLeft : start.store.Ordinary ⟨1⟩ := by decide +kernel
  have ordinaryRight : start.store.Ordinary ⟨2⟩ := by decide +kernel
  have houses : start.store.Houses rootOfDiamond.procedure rootOfDiamond :=
    ⟨rfl, by decide, by decide⟩
  rcases diamond_resolves (Meaning.evolving_ofBudget 1) {} (by decide) houses
    (Definer.faithful_raw _ start) rfl ordinaryLeft rfl ordinaryRight
    (namesLeft ▸ List.mem_singleton.mpr rfl) defined (by rw [namesRight]; decide) resolved with
    ⟨first, second, between, extended, conflicts, later, ranFirst, ranSecond, _, _, yields, _,
      survived⟩
  exact ⟨first, second, between, extended, conflicts, later, ranFirst, ranSecond, yields, survived⟩

theorem diamond_loses_text :
    ∃ between extended later,
      (rootOfDiamond.extend (.ofBudget 1) [.object ⟨1⟩]).run
          (diamondOf (.text "one") (.text "two")) = (.ok ⟨4⟩, between) ∧
      (rootOfDiamond.extend (.ofBudget 1) [.object ⟨2⟩]).run between = (.ok ⟨5⟩, extended) ∧
      (({} : Composer).compose (.ofBudget 1) [.procedure ⟨4⟩, .procedure ⟨5⟩]).run extended =
        (.ok ⟨6⟩, later) ∧
      extended.store.dataValue? (extended.store.prototypeOf ⟨4⟩).1 "n" = some (.text "two") ∧
      later.store.dataValue? (later.store.prototypeOf ⟨6⟩).1 "n" = some (.text "one") := by
  refine ⟨_, _, _, Action.run_eq_of_toOption _ _ _ (by decide +kernel),
    Action.run_eq_of_toOption _ _ _ (by decide +kernel),
    Action.run_eq_of_toOption _ _ _ (by decide +kernel), ?_, ?_⟩
  · rfl
  · rfl

end TraitComposition.Composer
