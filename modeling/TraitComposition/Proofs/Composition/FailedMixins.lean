import TraitComposition.Proofs.Composition.Ingredients
import TraitComposition.Proofs.Merge.Courses
import TraitComposition.Proofs.Merge.Failures

/-!
Failed calls that mix sources into an object. The merge writes to the live object, turn by
turn, and nothing is ever taken back. A call that fails leaves the object as it was if a
source is invalid or the definer cannot be read; it leaves what the turns before the failing
one did to it if the merge fails, and the finished merge if its conflicts are refused.
-/
namespace TraitComposition

variable {σ : Type}

private theorem Sources.isSource_of_invalidFrom_eq_none (position : Nat) {sources : List Value}
    (valid : invalidFrom position sources = none) : ∀ source ∈ sources, source.isSource = true := by
  induction sources generalizing position with
  | nil => exact List.forall_mem_nil _
  | cons source sources induction =>
      cases composable : source.isSource with
      | false =>
          rw [invalidFrom_of_not_isSource position composable] at valid
          cases valid
      | true =>
          rw [List.forall_mem_cons]
          refine ⟨composable, induction (position + 1) ?_⟩
          cases source with
          | procedure | object => exact valid
          | _ => cases composable

private theorem Sources.isSource_of_validate {sources : List Value} {offset : Nat}
    (valid : validate sources offset = .ok ()) : ∀ source ∈ sources, source.isSource = true := by
  apply isSource_of_invalidFrom_eq_none offset
  unfold validate at valid
  split at valid
  · cases valid
  · split at valid
    · cases valid
    · assumption

namespace Composer

def tolerant (composer : Composer) : Composer :=
  { composer with config := { composer.config with conflictPolicy := .warn } }

private theorem exists_of_answer_eq_error {α : Type} (composer : Composer)
    {conflicts : List Conflict}
    {item : α} {fault : Fault} (refused : composer.answer conflicts item = .error fault) :
    composer.config.conflictPolicy = .fail ∧
      ∃ first rest, conflicts = first :: rest ∧ fault = .unresolvedConflict first.member := by
  unfold answer refusal? at refused
  cases policy : composer.config.conflictPolicy <;> cases conflicts <;>
    simp only [policy] at refused
  all_goals cases refused
  exact ⟨rfl, _, _, rfl, rfl⟩

section Run

variable (composer : Composer) {meaning : Meaning σ} {target : ObjectId} {sources : List Value}
  {world : World σ}

theorem run_mixinInto {definer : Definer} {begun : World σ}
    (valid : Sources.validate sources 1 = .ok ())
    (read : (Definer.ofValue meaning (.object target)).run world = (.ok definer, begun)) :
    (composer.mixinInto meaning target sources).run world =
      match (mixin meaning target sources definer).run begun with
      | (.error fault, later) => (.error fault, later)
      | (.ok conflicts, merged) =>
          (composer.answer conflicts target,
            { merged with store := merged.store.reportAll composer.observer conflicts }) := by
  rw [mixinInto, valid]
  change (Definer.ofValue meaning (.object target) >>= _).run world = _
  rw [Action.run_bind_of_ok _ read, Action.run_bind]
  rcases (mixin meaning target sources definer).run begun with ⟨fault | conflicts, merged⟩
  · rfl
  · exact run_report_bind composer conflicts target merged

end Run

/-! ### Where a call stops -/

variable (composer : Composer) (budget : Nat) (target : ObjectId) (sources : List Value)
  (world : World σ)

/-- Where a call that mixes sources into an object stops, with the fault it raises, the world
it leaves, and what has become of the object. What the user code does to the object that runs
when the call stops is left open. -/
inductive MixinStops : Fault → World σ → Prop
  /-- A source is invalid. Nothing has happened. -/
  | invalid {fault : Fault} (rejected : Sources.validate sources 1 = .error fault) :
      MixinStops fault world
  /-- The definer cannot be read. -/
  | unread {fault : Fault} {later : World σ}
      (raised : (Definer.ofValue (.ofBudget budget) (.object target)).run world =
        (.error fault, later))
      (stays : Harmless (· = target) (Definer.ofValue · (.object target)) budget world →
        later.store.members target = world.store.members target) :
      MixinStops fault later
  /-- A turn of the merge fails. The object is as the turns before left it. -/
  | failed {fault : Fault} {later begun : World σ} {definer : Definer}
      {done : List (Merge.Turn σ)} {last : Merge.Turn σ}
      (read : (Definer.ofValue (.ofBudget budget) (.object target)).run world =
        (.ok definer, begun))
      (waits : Harmless (· = target) (Definer.ofValue · (.object target)) budget world →
        begun.store.members target = world.store.members target)
      (ends : Merge.EndsIn (.ofBudget budget) ⟨target, definer, sources⟩
        (Merge.turns (.ofBudget budget) ⟨target, definer, sources⟩ 0 sources [] begun)
        fault later done last)
      (stays : Harmless (· = target)
          (fun meaning => last.visit.mix meaning ⟨target, definer, sources⟩ last.name last.held)
          budget last.before →
        later.store.members target =
          (Merge.reached (.ofBudget budget) ⟨target, definer, sources⟩ done begun).store.members
            target) :
      MixinStops fault later
  /-- The conflicts that the merge left are refused. The object is as it would be if they were
  tolerated. -/
  | refused {first : Conflict} {rest : List Conflict} {later begun merged : World σ}
      {definer : Definer}
      (read : (Definer.ofValue (.ofBudget budget) (.object target)).run world =
        (.ok definer, begun))
      (mixed : (mixin (.ofBudget budget) target sources definer).run begun =
        (.ok (first :: rest), merged))
      (policy : composer.config.conflictPolicy = .fail)
      (stays : later.store.members target = merged.store.members target)
      (tolerated : (composer.tolerant.mixinInto (.ofBudget budget) target sources).run world =
        (.ok target, later)) :
      MixinStops (.unresolvedConflict first.member) later

variable {composer budget target sources world}

/-- A call that mixes sources into an object and fails keeps what it has done to the object by
then, and no more: it stops at an invalid source, at the definer or at a turn, which none of
them has written to the object, or at the report, when the merge is complete. -/
theorem mixinInto_stops {fault : Fault} {later : World σ}
    (known : world.store.hasObject target = true)
    (raised : (composer.mixinInto (.ofBudget budget) target sources).run world =
      (.error fault, later)) :
    composer.MixinStops budget target sources world fault later := by
  cases valid : Sources.validate sources 1 with
  | error rejected =>
      rw [composer.run_mixinInto_of_invalid _ target valid] at raised
      cases raised
      exact .invalid valid
  | ok _ =>
      have waits (harmless : Harmless (· = target) (Definer.ofValue · (.object target)) budget
          world) : ((Definer.ofValue (.ofBudget budget) (.object target)).run world).2.store.members
            target = world.store.members target := by
        have keeps := Definer.keeping_ofValue
          (Meaning.shelters_sheltering (σ := σ) (· = target) budget) (.object target) world
        rw [harmless] at keeps
        exact keeps.members target known rfl
      rcases read : (Definer.ofValue (.ofBudget budget) (.object target)).run world with
        ⟨other | definer, begun⟩
      · rw [read] at waits
        rw [mixinInto, valid] at raised
        change (Definer.ofValue _ (.object target) >>= _).run world = _ at raised
        rw [Action.run_bind_of_error _ read] at raised
        cases raised
        exact .unread read waits
      · rw [read] at waits
        have evolving := Meaning.evolving_ofBudget (σ := σ) budget
        have asked := Definer.evolving_ofValue evolving (.object target) world
        rw [read] at asked
        have ran := composer.run_mixinInto valid read
        rcases mixed : (mixin (.ofBudget budget) target sources definer).run begun with
          ⟨other | conflicts, merged⟩
        · rw [mixed, raised] at ran
          cases ran
          rcases Merge.exists_last_of_sources evolving (asked.1.extends.object target known).1
            (Sources.isSource_of_validate valid) mixed with ⟨done, last, ends, before⟩
          refine .failed read waits ends fun harmless => ?_
          have there := Merge.hasObject_of_turns evolving target
            (asked.1.extends.object target known).1 last (ends.taken ▸ List.mem_concat_self)
          rw [← before]
          exact (last.keeps_of_failed harmless ends.failed).members target there rfl
        · rw [mixed, raised] at ran
          have tolerated := composer.tolerant.run_mixinInto valid read
          rw [mixed] at tolerated
          injection ran with refused left
          rcases composer.exists_of_answer_eq_error refused.symm with
            ⟨policy, first, rest, rfl, rfl⟩
          subst left
          refine .refused read mixed policy ?_ tolerated
          rw [Store.reportAll_eq]
          rfl

/-- An object with a member, and a bare table whose second member is an alias of one that the
object lacks. -/
def lackingMember : World Unit where
  store := {
    objects := #[
      { members := .ofEntries [("z", .ofValue .null)] },
      { members := .ofEntries [("a", .ofValue .null), ("b", .ofValue (.procedure ⟨1⟩))] }]
    procedures := #[
      { body := .required },
      { body := .unapplied none, hook := some (.aliased (.member "missing") none none) }] }
  state := ()

/-- The alias is not resolved when the first member of the table is there already. -/
theorem failed_mixin_adds_member :
    ∃ later, (({} : Composer).mixinInto (.ofBudget 2) ⟨0⟩ [.object ⟨1⟩]).run lackingMember =
        (.error (.aliasUnavailable "missing" "b"), later) ∧
      lackingMember.store.ownNames ⟨0⟩ = ["z"] ∧ later.store.ownNames ⟨0⟩ = ["z", "a"] := by
  exact ⟨_, Action.run_eq_of_error _ lackingMember _ rfl, by decide +kernel, by decide +kernel⟩

def lackingPlan : Merge.Plan :=
  ⟨⟨0⟩, .raw, [.object ⟨1⟩]⟩

theorem run_mixin_lackingMember (meaning : Meaning Unit) :
    (mixin meaning ⟨0⟩ [.object ⟨1⟩] .raw).run lackingMember =
      (meaning.install (.aliased (.member "missing") none none) ⟨0⟩ "b" >>= fun _ => pure []).run
        ((Merge.mixMember .exhausted lackingPlan ⟨1⟩ "a" []).run lackingMember).2 := by
  have names : lackingMember.store.enumerableNames ⟨1⟩ = ["a", "b"] := by decide +kernel
  have ran := Action.run_eq_of_toOption (Merge.mixMember .exhausted lackingPlan ⟨1⟩ "a" [])
    lackingMember [] (by decide +kernel)
  have first := Merge.upheld_mixMember meaning.upheldBy_exhausted lackingPlan ⟨1⟩ "a" [] _ _ _ ran
  have found : ((Merge.mixMember .exhausted lackingPlan ⟨1⟩ "a" []).run
      lackingMember).2.store.lookup ⟨1⟩ "b" = some (⟨1⟩, .ofValue (.procedure ⟨1⟩)) := rfl
  rw [Merge.run_mixin_of_table, names]
  simp only [List.foldlM_cons, List.foldlM_nil, bind_pure]
  rw [← lackingPlan, Action.run_bind_of_ok _ first]
  exact Merge.run_mixMember_of_hook meaning _ [] found rfl rfl

private theorem harmless_lackingMember :
    Harmless (· = ⟨0⟩) (({} : Composer).mixinInto · ⟨0⟩ [.object ⟨1⟩]) 2 lackingMember := by
  have valid : Sources.validate [.object ⟨1⟩] 1 = .ok () := rfl
  have read (meaning : Meaning Unit) :
      (Definer.ofValue meaning (.object ⟨0⟩)).run lackingMember = (.ok .raw, lackingMember) :=
    Definer.run_ofValue_of_missing meaning (by decide +kernel)
  have installed : (Meaning.sheltering (· = ⟨0⟩) 2 : Meaning Unit).install
      (.aliased (.member "missing") none none) ⟨0⟩ "b" =
        (Meaning.ofBudget 2).install (.aliased (.member "missing") none none) ⟨0⟩ "b" := rfl
  rw [Harmless, run_mixinInto {} valid (read _), run_mixinInto {} valid (read _),
    run_mixin_lackingMember, run_mixin_lackingMember, installed]

/-- The call stops at the second turn, where nothing that user code might do gets in the way. -/
theorem mixinInto_stops_at_alias :
    ∃ later, (({} : Composer).mixinInto (.ofBudget 2) ⟨0⟩ [.object ⟨1⟩]).run lackingMember =
        (.error (.aliasUnavailable "missing" "b"), later) ∧
      ({} : Composer).MixinStops 2 ⟨0⟩ [.object ⟨1⟩] lackingMember
        (.aliasUnavailable "missing" "b") later ∧
      Harmless (· = ⟨0⟩) (({} : Composer).mixinInto · ⟨0⟩ [.object ⟨1⟩]) 2 lackingMember := by
  have raised := Action.run_eq_of_error
    (({} : Composer).mixinInto (.ofBudget 2) ⟨0⟩ [.object ⟨1⟩]) lackingMember
    (.aliasUnavailable "missing" "b") rfl
  exact ⟨_, raised, mixinInto_stops rfl raised, harmless_lackingMember⟩

end Composer

end TraitComposition
