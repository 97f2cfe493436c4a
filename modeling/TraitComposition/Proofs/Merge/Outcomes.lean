import TraitComposition.Proofs.Merge.Turns

/-!
What a turn comes to. There may be nothing to do; or the hook of a decorator runs; or else a
member is put on the destination, which is the one that the source shows or the one that the
destination has been resolving. Before that, procedures may have been asked for their tables.
-/
namespace TraitComposition.Merge

variable {σ : Type} {meaning : Meaning σ} {plan : Plan}

def Asked (before after : World σ) : Prop :=
  ∀ passage : Passage σ, Asks passage → passage.leads before after

theorem Asked.refl (world : World σ) : Asked world world :=
  fun passage _ => passage.refl world

theorem Asked.changes {before after : World σ} (asked : Asked before after) :
    Store.ChangesWithin .nowhere before.store after.store :=
  asked (Passage.within σ .nowhere) (asks_within .nowhere)

namespace Turn

/-- Whether the source is a bare table that shows a requirement, and the destination resolves the
name to something. -/
def spares (turn : Turn σ) (target : ObjectId) : Bool :=
  turn.visit.chain.isNone && turn.method?.any turn.before.store.isRequired &&
    turn.before.store.has target turn.name

structure Offers (turn : Turn σ) (target : ObjectId) : Prop where
  shown : turn.before.store.has turn.visit.table turn.name = true
  unspared : turn.spares target = false

variable (meaning plan) in
inductive Outcome (turn : Turn σ) : Prop
  /-- The source shows nothing, or the destination goes without what it shows. -/
  | nothing {asked : World σ} {answer : List Conflict} (asks : Asked turn.before asked)
      (spared : turn.before.store.has turn.visit.table turn.name = true →
        turn.before.store.has plan.target turn.name = true)
      (ran : turn.run meaning plan = (.ok answer, asked))
      (idle : turn.Offers plan.target ∧
          turn.before.store.has plan.target turn.name = true ∧
          asked.store.descriptor? plan.target turn.name = none ∨
        ¬turn.Offers plan.target ∧ asked = turn.before ∧ answer = turn.held)
  /-- A hook runs. -/
  | hook {decorator : ProcedureId} {hook : Hook}
      (decorates : turn.decorator? plan.target = some decorator)
      (hooked : (turn.before.store.procedure decorator).hook = some hook)
      (ran : turn.run meaning plan = (meaning.install hook plan.target turn.name >>= fun _ =>
        pure (settleConflict turn.name turn.held)).run turn.before)
  /-- A member is put on the destination. -/
  | member {asked : World σ} {answer : List Conflict} (descriptor : Descriptor)
      (asks : Asked turn.before asked)
      (origin : turn.before.store.descriptor? turn.visit.table turn.name = some descriptor ∨
        asked.store.descriptor? plan.target turn.name = some descriptor)
      (ran : turn.run meaning plan =
        (put meaning plan turn.name descriptor >>= fun _ => pure answer).run asked)
      (offers : turn.Offers plan.target)

variable {turn : Turn σ}

private theorem spares_of_chain {chain : List ObjectId} (brings : turn.visit.chain = some chain)
    (target : ObjectId) : turn.spares target = false := by
  rw [spares, brings]
  rfl

private theorem not_offers_of_hidden (target : ObjectId)
    (hidden : turn.before.store.lookup turn.visit.table turn.name = none) :
    ¬turn.Offers target := by
  intro offers
  have shown := offers.shown
  rw [Store.has, hidden] at shown
  cases shown

private theorem Outcome.of_carryOut {asked : World σ} {descriptor : Descriptor}
    {incoming : ProcedureId} {resolution : Resolution} (asks : Asked turn.before asked)
    (shown : turn.before.store.descriptor? turn.visit.table turn.name = some descriptor)
    (settled : resolution = .keepDestination → turn.before.store.has plan.target turn.name = true)
    (offers : turn.Offers plan.target)
    (ran : turn.run meaning plan =
      (carryOut meaning plan turn.name descriptor incoming turn.held resolution).run asked) :
    turn.Outcome meaning plan := by
  cases resolution with
  | incoming | conflict existing => exact .member descriptor asks (.inl shown) ran offers
  | keepDestination =>
      rw [carryOut, Action.run_getStore_bind] at ran
      cases kept : asked.store.descriptor? plan.target turn.name with
      | none =>
          rw [kept] at ran
          exact .nothing asks (fun _ => settled rfl) ran (.inl ⟨offers, settled rfl, kept⟩)
      | some existing =>
          rw [kept] at ran
          exact .member existing asks (.inr kept) ran offers

section Undecorated

variable (undecorated : turn.decorator? plan.target = none)

include undecorated

theorem outcome_of_chain {chain : List ObjectId} (brings : turn.visit.chain = some chain) :
    turn.Outcome meaning plan := by
  have ran : turn.run meaning plan = (mixMethod meaning plan turn.visit.index turn.visit.table chain
      turn.name turn.held).run turn.before := by
    rw [run, Visit.mix, brings]
  have here := Asked.refl turn.before
  cases found : turn.before.store.lookup turn.visit.table turn.name with
  | none =>
      rw [mixMethod, Action.run_getStore_bind, found] at ran
      refine .nothing here (fun shown => ?_) ran
        (.inr ⟨not_offers_of_hidden plan.target found, rfl, rfl⟩)
      rw [Store.has, found] at shown
      cases shown
  | some resolved =>
      rcases resolved with ⟨owner, descriptor⟩
      have shown : turn.before.store.descriptor? turn.visit.table turn.name = some descriptor := by
        rw [Store.descriptor?, found]
        rfl
      have offers : turn.Offers plan.target :=
        ⟨Store.has_of_descriptor? shown, spares_of_chain brings plan.target⟩
      cases method : descriptor.method? with
      | none =>
          rw [run_mixMethod_of_value meaning plan _ _ _ found method] at ran
          exact .member descriptor here (.inl shown) ran offers
      | some incoming =>
          have silent : Merge.installs turn.before.store turn.visit.table chain turn.name
              (turn.before.store.dataValue? plan.target turn.name) = false := by
            rw [← Bool.not_eq_true]
            intro runs
            simp only [decorator?, brings, runs, if_true, method?, shown, Option.bind_some,
              method] at undecorated
            cases undecorated
          rw [run_mixMethod_weighs meaning plan _ _ _ found method silent] at ran
          rcases rival_or_alone (turn.before.store.dataValue? plan.target turn.name) incoming with
            ⟨existing, different, resolved⟩ | alone
          · rcases exists_run_weigh plan turn.visit.index turn.name
              (owner == turn.visit.table) chain different turn.before with
              ⟨asked, earlier, throughThis, weighed, _⟩
            have asks : Asked turn.before asked := fun passage tables => by
              have leads : passage.leads turn.before
                  ((weigh plan turn.visit.index turn.name (owner == turn.visit.table) incoming
                    chain (some (.procedure existing))).run turn.before).2 :=
                follows_weigh tables _ _ _ _ _ _ turn.before
              rwa [weighed] at leads
            rw [resolved, Action.run_bind_of_ok _ weighed] at ran
            refine .of_carryOut asks shown (fun _ => ?_) offers ran
            rcases Option.bind_eq_some_iff.mp resolved with ⟨kept, described, _⟩
            exact Store.has_of_descriptor? described
          · rw [weigh_of_no_rival plan _ _ _ _ _ alone, Action.run_pure_bind] at ran
            have settled : Resolution.incoming = .keepDestination →
                turn.before.store.has plan.target turn.name = true := by rintro ⟨⟩
            exact .of_carryOut here shown settled offers ran

theorem outcome_of_table (bare : turn.visit.chain = none) : turn.Outcome meaning plan := by
  have ran : turn.run meaning plan = (mixMember meaning plan turn.visit.table turn.name
      turn.held).run turn.before := by
    rw [run, Visit.mix, bare]
  have here := Asked.refl turn.before
  cases found : turn.before.store.lookup turn.visit.table turn.name with
  | none =>
      rw [mixMember, Action.run_getStore_bind, found] at ran
      refine .nothing here (fun shown => ?_) ran
        (.inr ⟨not_offers_of_hidden plan.target found, rfl, rfl⟩)
      rw [Store.has, found] at shown
      cases shown
  | some resolved =>
      rcases resolved with ⟨owner, descriptor⟩
      have shown : turn.before.store.descriptor? turn.visit.table turn.name = some descriptor := by
        rw [Store.descriptor?, found]
        rfl
      have spares : turn.spares plan.target =
          (descriptor.method?.any turn.before.store.isRequired &&
            turn.before.store.has plan.target turn.name) := by
        rw [Turn.spares, bare, method?, shown]
        rfl
      cases method : descriptor.method? with
      | none =>
          rw [method] at spares
          rw [run_mixMember_of_value meaning plan _ found method] at ran
          exact .member descriptor here (.inl shown) ran ⟨Store.has_of_descriptor? shown, spares⟩
      | some incoming =>
          have unhooked : (turn.before.store.procedure incoming).hook = none := by
            rw [decorator?, bare] at undecorated
            simp only [method?, shown, Option.bind_some, method, Option.filter_some,
              ite_eq_right_iff, reduceCtorEq, imp_false] at undecorated
            exact Option.not_isSome_iff_eq_none.mp undecorated
          rw [run_mixMember_of_unhooked meaning plan _ found method unhooked] at ran
          rw [method, Option.any_some] at spares
          split at ran
          · next kept =>
            have skipped : ¬turn.Offers plan.target := by
              intro offers
              cases (spares.trans kept).symm.trans offers.unspared
            rw [Bool.and_eq_true] at kept
            exact .nothing here (fun _ => kept.2) ran (.inr ⟨skipped, rfl, rfl⟩)
          · next put =>
            exact .member descriptor here (.inl shown) ran
              ⟨Store.has_of_descriptor? shown, spares.trans (Bool.eq_false_iff.mpr put)⟩

end Undecorated

variable (meaning plan)

theorem outcome (turn : Turn σ) : turn.Outcome meaning plan := by
  have installs := turn.installs_decorator? meaning plan
  cases decorates : turn.decorator? plan.target with
  | some decorator =>
      rw [decorates] at installs
      rcases installs with ⟨hook, hooked, ran⟩
      exact .hook decorates hooked ran
  | none =>
      cases brings : turn.visit.chain with
      | some chain => exact outcome_of_chain decorates brings
      | none => exact outcome_of_table decorates brings

end Turn

end TraitComposition.Merge
